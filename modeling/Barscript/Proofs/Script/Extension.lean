import Barscript.Proofs.Script.Phrase
import Barscript.Proofs.Script.Renumber
import Barscript.Proofs.Script.Rules
import Barscript.Proofs.Script.Spelling

/-!
# Reading with more lines behind

A phrase is read the same, up to the identities of its calls, when the script
goes on in another line behind it, when its tokens stand at other places and
when other calls come before it (`mirrors_expression`). The script that goes
on is compared with the one that ends: what ends in a fault may read on in the
next line, as inside of parentheses, but a fault in an argument that is closed
behind it (`Closed`) is found in both, and so both drop the argument.
-/

namespace Barscript.Script

variable {X : List Spelling} {k : Nat} {c c' : Cursor}

/-! ## Cursors in a script that goes on -/

/-- Nothing is left, or the end of a line comes first. -/
def AtLineEnd (X : List Spelling) : Prop :=
  ∀ s ∈ X.head?, s.1 = .newline

/-- At `c'` the script goes on with `X`, where at `c` it ends, and `k` more
calls were completed. -/
structure Extends (X : List Spelling) (k : Nat) (c c' : Cursor) : Prop where
  ahead : c'.ahead = c.ahead ++ X
  nextId : c'.nextId = c.nextId + k

theorem Extends.cons (h : Extends X k c c') {token : Token}
    {pending : List Token} (hpending : c.pending = token :: pending) :
    ∃ token' pending', c'.pending = token' :: pending' ∧
      token'.kind = token.kind ∧ token'.value = token.value ∧
      Extends X k (c.leaving pending) (c'.leaving pending') := by
  have hahead := h.ahead
  unfold Cursor.ahead at hahead
  rw [hpending, List.map_cons, List.cons_append] at hahead
  obtain ⟨token', pending', hpending', hspelling, hrest⟩ :=
    List.map_eq_cons_iff.mp hahead
  exact ⟨token', pending', hpending', congrArg Prod.fst hspelling,
    congrArg Prod.snd hspelling, hrest, h.nextId⟩

theorem Extends.tail (h : Extends X k c c')
    (hne : firstKind c.pending ≠ .endOfInput) :
    Extends X k (c.leaving c.pending.tail) (c'.leaving c'.pending.tail) := by
  obtain ⟨token, rest, hpending⟩ := cons_of_firstKind hne
  obtain ⟨token', rest', hpending', _, _, hext⟩ := h.cons hpending
  rw [hpending, hpending']
  exact hext

/-- Where the script ends at `c`, the line ends at `c'`. -/
theorem Extends.firstKind_nil (hX : AtLineEnd X) (h : Extends X k c c')
    (hpending : c.pending = []) :
    firstKind c'.pending = .newline ∨ firstKind c'.pending = .endOfInput := by
  have hahead := h.ahead
  unfold Cursor.ahead at hahead
  rw [hpending, List.map_nil, List.nil_append] at hahead
  cases hpending' : c'.pending with
  | nil => exact Or.inr rfl
  | cons token' pending' =>
      rw [hpending', List.map_cons] at hahead
      exact Or.inl (hX token'.spelling (by rw [← hahead]; rfl))

/-- What a rule sees of the first token is the same, if it takes the end of a
line for the end of the script. -/
theorem Extends.seen {α : Type} (hX : AtLineEnd X)
    (h : Extends X k c c') (see : TokenKind → α)
    (hsee : see .newline = see .endOfInput) :
    see (firstKind c'.pending) = see (firstKind c.pending) := by
  cases hpending : c.pending with
  | nil =>
      rcases h.firstKind_nil hX hpending with hkind | hkind <;> rw [hkind]
      · exact hsee
      · rfl
  | cons token pending =>
      obtain ⟨token', pending', hpending', hkind, _⟩ := h.cons hpending
      rw [hpending']
      exact congrArg see hkind

theorem Extends.uneaten (hX : AtLineEnd X) (h : Extends X k c c')
    {kind : TokenKind} (hline : kind ≠ .newline) (hend : kind ≠ .endOfInput)
    (heat : c.eat? kind = none) : c'.eat? kind = none := by
  have hseen := h.seen hX (· = kind)
    (propext ⟨fun h => absurd h.symm hline, fun h => absurd h.symm hend⟩)
  apply eat?_none
  intro hkind
  have hkind : firstKind c.pending = kind := hseen.mp hkind
  obtain ⟨token, htoken, hpending⟩ := pending_of_firstKind hkind hend
  rw [eat?_cons hpending, if_pos htoken] at heat
  cases heat

theorem Extends.eaten (h : Extends X k c c') {kind : TokenKind}
    {rest : { rest : Cursor // rest.size < c.size }}
    (heat : c.eat? kind = some rest) :
    ∃ rest', c'.eat? kind = some rest' ∧ Extends X k rest.1 rest'.1 := by
  obtain ⟨token, htoken, hpending, hrest⟩ := eaten_of_eat? heat
  obtain ⟨token', pending', hpending', hkind, _, hext⟩ := h.cons hpending
  rw [eat?_cons hpending', if_pos (hkind.trans htoken)]
  rw [← hrest] at hext
  exact ⟨_, rfl, hext⟩

/-- Newlines are skipped the same, unless nothing is left behind them. -/
theorem Extends.skipNewlines (h : Extends X k c c')
    (hne : c.skipNewlines.pending ≠ []) :
    Extends X k c.skipNewlines c'.skipNewlines := by
  refine ⟨?_, h.nextId⟩
  have hne' : c.skipNewlines.ahead ≠ [] := by
    unfold Cursor.ahead
    rwa [Ne, List.map_eq_nil_iff]
  rw [ahead_skipNewlines] at hne'
  rw [ahead_skipNewlines, ahead_skipNewlines, h.ahead]
  unfold pastBreaks at hne' ⊢
  rw [List.dropWhile_append, if_neg (by rwa [List.isEmpty_iff])]

theorem Extends.isNamed (hX : AtLineEnd X) (h : Extends X k c c') :
    IsNamed c'.pending ↔ IsNamed c.pending := by
  cases hpending : c.pending with
  | nil =>
      have hkind := h.firstKind_nil hX hpending
      refine ⟨fun hnamed => ?_, False.elim⟩
      obtain ⟨word, sign, rest, hpending'⟩ := hnamed.tokens
      rw [hpending'] at hkind hnamed
      rcases hnamed.1 with hword | hword <;>
        rcases hkind with hkind | hkind <;> cases hword.symm.trans hkind
  | cons word pending =>
      obtain ⟨word', pending', hpending', hkind, _, hext⟩ := h.cons hpending
      have hsign : firstKind pending' = .assign ↔ firstKind pending = .assign :=
        iff_of_eq (hext.seen hX (· = .assign) (by simp))
      rw [hpending', isNamed_iff, isNamed_iff, hkind, hsign]

/-- The name of an argument is read the same. -/
theorem Extends.atValue (hX : AtLineEnd X) (h : Extends X k c c') :
    (splitName c'.pending).1 = (splitName c.pending).1 ∧
      Extends X k c.atValue c'.atValue := by
  have hiff := h.isNamed hX
  unfold Cursor.atValue
  by_cases hname : IsNamed c.pending
  · obtain ⟨word, sign, pending, hpending⟩ := hname.tokens
    obtain ⟨word', rest', hpending', _, hvalue, hext⟩ := h.cons hpending
    -- Behind the name stands the sign.
    obtain ⟨sign', pending', hrest', _, _, hext'⟩ := hext.cons rfl
    obtain rfl : rest' = sign' :: pending' := hrest'
    have hname' := hiff.mpr hname
    rw [hpending] at hname ⊢
    rw [hpending'] at hname' ⊢
    rw [splitName_named hname, splitName_named hname']
    exact ⟨congrArg some hvalue, hext'⟩
  · rw [splitName_plain hname, splitName_plain fun h => hname (hiff.mp h)]
    exact ⟨rfl, h⟩

/-! ## The end of an argument -/

/-- A token leads to another depth, ends the argument or shows that it has no
end. -/
theorem skipArgument_step (kind : TokenKind) (depth : Nat) :
    (∃ depth', ∀ outer token rest, Token.kind token = kind →
      skipArgument (depth + outer) (token :: rest) =
        skipArgument (depth' + outer) rest) ∨
    (∀ token rest, Token.kind token = kind →
      skipArgument depth (token :: rest) = some (token :: rest)) ∨
    (∀ token rest, Token.kind token = kind →
      skipArgument depth (token :: rest) = none) := by
  by_cases hplain : kind.isMark = false
  · refine Or.inl ⟨depth, ?_⟩
    intro outer token rest hkind
    exact skipArgument_plain (by rw [hkind]; exact hplain) _
  by_cases hopen : kind = .leftParen ∨ kind = .leftBracket
  · refine Or.inl ⟨depth + 1, ?_⟩
    intro outer token rest hkind
    rw [skipArgument_opening (by rw [hkind]; exact hopen)]
    congr 1
    omega
  by_cases hclose : kind = .rightParen ∨ kind = .rightBracket
  · cases depth with
    | succ depth =>
        refine Or.inl ⟨depth, ?_⟩
        intro outer token rest hkind
        rw [Nat.add_right_comm,
          skipArgument_closing (by rw [hkind]; exact hclose)]
    | zero =>
        rcases hclose with rfl | rfl
        · exact Or.inr (Or.inl fun token rest hkind =>
            skipArgument_end (Or.inl hkind))
        · refine Or.inr (Or.inr ?_)
          intro token rest hkind
          rw [skipArgument, hkind]
          rfl
  have hcomma : kind = .comma := by
    cases kind <;> simp_all [TokenKind.isMark]
  cases depth with
  | succ depth =>
      refine Or.inl ⟨depth + 1, ?_⟩
      intro outer token rest hkind
      rw [Nat.add_right_comm, skipArgument_comma (hkind.trans hcomma)]
  | zero =>
      exact Or.inr (Or.inl fun token rest hkind =>
        skipArgument_end (Or.inr (hkind.trans hcomma)))

theorem Extends.skipped (h : Extends X k c c') {depth : Nat}
    {left : List Token} (hleft : skipArgument depth c.pending = some left) :
    ∃ left', skipArgument depth c'.pending = some left' ∧
      Extends X k (c.leaving left) (c'.leaving left') := by
  induction hpending : c.pending generalizing c c' depth with
  | nil =>
      rw [hpending] at hleft
      cases hleft
  | cons token pending ih =>
      obtain ⟨token', pending', hpending', hkind, _, hext⟩ := h.cons hpending
      rw [hpending] at hleft
      rw [hpending']
      rcases skipArgument_step token.kind depth with ⟨depth', hstep⟩ | hend |
          hnone
      · have hstep : ∀ first rest, Token.kind first = token.kind →
            skipArgument depth (first :: rest) = skipArgument depth' rest :=
          hstep 0
        rw [hstep token pending rfl] at hleft
        rw [hstep token' pending' hkind]
        exact ih hext hleft rfl
      · rw [hend token pending rfl] at hleft
        cases hleft
        rw [hend token' pending' hkind, ← hpending, ← hpending']
        exact ⟨_, rfl, h⟩
      · rw [hnone token pending rfl] at hleft
        cases hleft

/-- An argument that has no end in brackets that are closed has none in the
script that goes on. -/
theorem Extends.unskipped (h : Extends X k c c') {depth outer : Nat}
    {left : List Token}
    (hleft : skipArgument (depth + outer) c.pending = some left)
    (hnone : skipArgument depth c.pending = none) :
    skipArgument depth c'.pending = none := by
  induction hpending : c.pending generalizing c c' depth with
  | nil =>
      rw [hpending] at hleft
      cases hleft
  | cons token pending ih =>
      obtain ⟨token', pending', hpending', hkind, _, hext⟩ := h.cons hpending
      rw [hpending] at hleft hnone
      rw [hpending']
      rcases skipArgument_step token.kind depth with ⟨depth', hstep⟩ | hend |
          hstuck
      · rw [hstep outer token pending rfl] at hleft
        have hstep : ∀ first rest, Token.kind first = token.kind →
            skipArgument depth (first :: rest) = skipArgument depth' rest :=
          hstep 0
        rw [hstep token pending rfl] at hnone
        rw [hstep token' pending' hkind]
        exact ih hext hleft hnone rfl
      · rw [hend token pending rfl] at hnone
        cases hnone
      · exact hstuck token' pending' hkind

/-- The argument that is read ends, seen from inside of at least `outer`
brackets. -/
def Closed (outer : Nat) (c : Cursor) : Prop :=
  ∃ depth left, skipArgument (outer + depth) c.pending = some left

section

variable {outer : Nat} {rest : Cursor} {calls : List Expr}

theorem Closed.behind (h : Phrase c calls rest) (hc : Closed outer c) :
    Closed outer rest := by
  obtain ⟨depth, left, hleft⟩ := hc
  exact ⟨depth, left, (h.ends _).symm.trans hleft⟩

theorem Closed.ne_nil (h : Closed outer c) : c.pending ≠ [] := by
  obtain ⟨depth, left, hleft⟩ := h
  intro hnil
  rw [hnil] at hleft
  cases hleft

theorem Closed.skipNewlines (h : Closed outer c) :
    Closed outer c.skipNewlines :=
  h.behind (phrase_newlines c)

theorem Closed.inner (h : Closed 1 c) : Closed 0 c := by
  obtain ⟨depth, left, hleft⟩ := h
  exact ⟨1 + depth, left, by rwa [Nat.zero_add]⟩

/-- Inside of a bracket. -/
theorem Closed.opened {inner : Cursor} (h : Closed 0 c)
    (hopen : ∀ depth, skipArgument depth c.pending =
      skipArgument (depth + 1) inner.pending) : Closed 1 inner := by
  obtain ⟨depth, left, hleft⟩ := h
  refine ⟨depth, left, ?_⟩
  rw [Nat.zero_add, hopen] at hleft
  rwa [Nat.add_comm]

theorem Closed.afterComma (h : Closed 1 c) (hcomma : Eaten .comma c rest) :
    Closed 1 rest := by
  obtain ⟨depth, left, hleft⟩ := h
  obtain ⟨token, htoken, hpending, _⟩ := hcomma
  refine ⟨depth, left, ?_⟩
  rw [hpending, Nat.add_comm, skipArgument_comma htoken] at hleft
  rwa [Nat.add_comm]

end

/-! ## Outcomes -/

/-- What is read is read in the script that goes on, too, and `V` relates the
number of the next call and the two values; under `p` also a fault is found
there. -/
def Outcome.Mirrors {α : Type} (X : List Spelling) (k : Nat) (p : Prop)
    (V : Nat → α → α → Prop) {m n : Nat} (x : Outcome α m)
    (y : Outcome α n) : Prop :=
  match x with
  | .done value rest _ => ∃ value' rest' hless,
      y = .done value' rest' hless ∧ Extends X k rest rest' ∧
        V rest.nextId value value'
  | .failed fault => p → ∃ fault', y = .failed fault' ∧
      fault'.complaint = fault.complaint ∧ fault'.nextId = fault.nextId + k

section

variable {α β : Type} {m n m' n' : Nat} {p q : Prop}
  {V : Nat → α → α → Prop} {W : Nat → β → β → Prop} {x : Outcome α m}
  {y : Outcome α n}

theorem Outcome.Mirrors.weaken (h : x.Mirrors X k p V y) {hm : m ≤ m'}
    {hn : n ≤ n'} : (x.weaken hm).Mirrors X k p V (y.weaken hn) := by
  cases x with
  | done value rest _ =>
      obtain ⟨value', rest', hless, rfl, hext, hV⟩ := h
      exact ⟨value', rest', _, rfl, hext, hV⟩
  | failed fault =>
      intro hp
      obtain ⟨fault', rfl, hfault⟩ := h hp
      exact ⟨fault', rfl, hfault⟩

theorem Outcome.Mirrors.map (h : x.Mirrors X k p V y) {f g : α → β}
    (hfg : ∀ high a a', V high a a' → W high (f a) (g a')) :
    (x.map f).Mirrors X k p W (y.map g) := by
  cases x with
  | done value rest _ =>
      obtain ⟨value', rest', hless, rfl, hext, hV⟩ := h
      exact ⟨g value', rest', hless, rfl, hext, hfg _ _ _ hV⟩
  | failed fault =>
      intro hp
      obtain ⟨fault', rfl, hfault⟩ := h hp
      exact ⟨fault', rfl, hfault⟩

theorem Outcome.Mirrors.bind {next : α → (rest : Cursor) → rest.size < m →
      Outcome β m'}
    {next' : α → (rest : Cursor) → rest.size < n → Outcome β n'}
    {P : α → Cursor → Prop} {F : Fault → Prop} (h : x.Mirrors X k p V y)
    (hx : x.Meets P F)
    (hnext : ∀ a rest hrest a' rest' hrest', P a rest →
      Extends X k rest rest' → V rest.nextId a a' →
        (next a rest hrest).Mirrors X k p W (next' a' rest' hrest')) :
    (x.bind next).Mirrors X k p W (y.bind next') := by
  cases x with
  | done value rest hrest =>
      obtain ⟨value', rest', hless, rfl, hext, hV⟩ := h
      exact hnext value rest hrest value' rest' hless hx hext hV
  | failed fault =>
      intro hp
      obtain ⟨fault', rfl, hfault⟩ := h hp
      exact ⟨fault', rfl, hfault⟩

theorem Outcome.Mirrors.mono (h : x.Mirrors X k p V y) (hp : q → p) :
    x.Mirrors X k q V y := by
  cases x with
  | done value rest _ => exact h
  | failed fault => exact fun hq => h (hp hq)

theorem Outcome.Mirrors.imp {V' : Nat → α → α → Prop}
    (h : x.Mirrors X k p V y)
    (hV : ∀ high a a', V high a a' → V' high a a') :
    x.Mirrors X k p V' y := by
  cases x with
  | done value rest _ =>
      obtain ⟨value', rest', hless, rfl, hext, hvalue⟩ := h
      exact ⟨value', rest', hless, rfl, hext, hV _ _ _ hvalue⟩
  | failed fault => exact h

/-- With what is known of the numbers behind the phrase. -/
theorem Outcome.Mirrors.counting {P : α → Cursor → Prop} {F : Fault → Prop}
    {Q : Nat → Prop} (h : x.Mirrors X k p V y) (hx : x.Meets P F)
    (hP : ∀ a rest, P a rest → Q rest.nextId) :
    x.Mirrors X k p (fun high a a' => Q high ∧ V high a a') y := by
  cases x with
  | done value rest _ =>
      obtain ⟨value', rest', hless, rfl, hext, hvalue⟩ := h
      exact ⟨value', rest', hless, rfl, hext, hP _ _ hx, hvalue⟩
  | failed fault => exact h

/-- A fault that need not be found. -/
theorem Outcome.Mirrors.vacuous
    (hx : x.Meets (fun _ _ => False) fun _ => True) (hp : ¬ p) :
    x.Mirrors X k p V y := by
  cases x with
  | done value rest _ => exact absurd hx id
  | failed fault => exact fun h => absurd h hp

/-- Nothing is read where nothing is left. -/
theorem meets_empty (h : c.pending = []) (x : Outcome α c.size) :
    x.Meets (fun _ _ => False) fun _ => True := by
  cases x with
  | done value rest hless =>
      have hsize : c.size = 0 := congrArg List.length h
      rw [hsize] at hless
      exact absurd hless (Nat.not_lt_zero _)
  | failed fault => exact trivial

end

/-- The second value is the first with the identities from `low` to before
`high` raised by `k`. -/
def Shifted {α : Type} (renumber : (Nat → Nat) → α → α) (k low high : Nat)
    (a a' : α) : Prop :=
  ∀ f : Nat → Nat, (∀ i, low ≤ i → i < high → f i = i + k) →
    a' = renumber f a

theorem Shifted.mono {α : Type} {renumber : (Nat → Nat) → α → α}
    {low high low' high' : Nat} {a a' : α}
    (h : Shifted renumber k low high a a') (hlow : low' ≤ low)
    (hhigh : high ≤ high') : Shifted renumber k low' high' a a' :=
  fun f hf => h f fun i hi hi' =>
    hf i (Nat.le_trans hlow hi) (Nat.lt_of_lt_of_le hi' hhigh)

/-! ## Single tokens -/

theorem mirrors_expect (hX : AtLineEnd X) (h : Extends X k c c')
    {kind : TokenKind} (hline : kind ≠ .newline) (hend : kind ≠ .endOfInput)
    (what : String) (p : Prop) :
    (c.expect kind what).Mirrors X k p
      (fun high token token' => high = c.nextId ∧ token'.value = token.value)
      (c'.expect kind what) := by
  cases heat : c.eat? kind with
  | none =>
      rw [expect_none heat, expect_none (h.uneaten hX hline hend heat)]
      exact fun _ => ⟨_, rfl, rfl, h.nextId⟩
  | some rest =>
      obtain ⟨rest', heat', hext⟩ := h.eaten heat
      rw [expect_some heat, expect_some heat']
      refine ⟨_, _, _, rfl, hext, (eaten_of_eat? heat).nextId, ?_⟩
      obtain ⟨token, _, hpending, _⟩ := eaten_of_eat? heat
      obtain ⟨token', pending', hpending', _, hvalue, _⟩ := h.cons hpending
      unfold Cursor.peek
      rw [hpending, hpending']
      exact hvalue

/-- Newlines are skipped in front of the token. -/
theorem mirrors_expect_skip (hX : AtLineEnd X) (h : Extends X k c c')
    {kind : TokenKind} (hline : kind ≠ .newline) (hend : kind ≠ .endOfInput)
    (what : String) :
    (c.skipNewlines.expect kind what).Mirrors X k (Closed 0 c)
      (fun high _ _ => high = c.nextId)
      (c'.skipNewlines.expect kind what) := by
  by_cases hne : c.skipNewlines.pending = []
  · exact .vacuous (meets_empty hne _) fun hc => hc.skipNewlines.ne_nil hne
  · exact (mirrors_expect hX (h.skipNewlines hne) hline hend what _).imp
      fun _ _ _ => And.left

end Barscript.Script

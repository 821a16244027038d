import Barscript.Proofs.Script.Padding

/-!
# Reading side by side

A cursor in a script and one in the padded script, at which as many calls were
completed (`Cursor.Aligned`), and two outcomes with the same value or the same
complaint (`Outcome.Agrees`). A token that is expected is found at both or at
neither.
-/

namespace Barscript.Script

/-! ## Cursors -/

/-- What is left at `c'` is related to what is left at `c`, and as many calls
were completed. -/
structure Cursor.Aligned (R : List Spelling → List Spelling → Prop)
    (c c' : Cursor) : Prop where
  ahead : R c.ahead c'.ahead
  nextId : c'.nextId = c.nextId

/-- What no rule tells from a word, a bracket, a comma or the end of a line. -/
def TokenKind.isFirm (kind : TokenKind) : Bool :=
  !(kind.isMark || kind.isWord || kind == .newline || kind == .endOfInput)

theorem ahead_pending {c : Cursor} {token : Token} {pending : List Token}
    (h : c.pending = token :: pending) :
    c.ahead = token.spelling :: (c.leaving pending).ahead := by
  unfold Cursor.ahead
  rw [h]
  rfl

section

variable {called : List Spelling → Prop} {levels : List Bool}
  {R S : List Spelling → List Spelling → Prop} {c c' : Cursor}
  {token : Token} {pending : List Token}

theorem Cursor.Aligned.imp (h : c.Aligned R c')
    (hRS : ∀ A A', R A A' → S A A') : c.Aligned S c' :=
  ⟨hRS _ _ h.ahead, h.nextId⟩

/-- Behind a token that stands first in both. -/
theorem aligned_leaving {A' : List Spelling} (hid : c'.nextId = c.nextId)
    (hahead : c'.ahead = token.spelling :: A')
    (hR : R (c.leaving pending).ahead A') :
    ∃ token' pending', c'.pending = token' :: pending' ∧
      token'.spelling = token.spelling ∧
      (c.leaving pending).Aligned R (c'.leaving pending') := by
  obtain ⟨token', pending', hpending', hspelling, rfl⟩ := ahead_cons hahead
  exact ⟨token', pending', hpending', hspelling, hR, hid⟩

theorem Cursor.Aligned.behind (h : c.Aligned (Padded called levels) c') :
    c.Aligned (PaddedBehind called levels) c' :=
  h.imp fun _ _ => Padded.behind

theorem Cursor.Aligned.skipNewlines
    (h : c.Aligned (Padded called levels) c') :
    c.skipNewlines.Aligned (Padded called levels) c'.skipNewlines := by
  refine ⟨?_, h.nextId⟩
  rw [ahead_skipNewlines, ahead_skipNewlines]
  exact h.ahead.behindBreaks

theorem Cursor.Aligned.cons (h : c.Aligned (Padded called levels) c')
    (hpending : c.pending = token :: pending) (hline : token.kind ≠ .newline)
    (hclose : token.kind ≠ .rightParen) (hcomma : token.kind ≠ .comma) :
    ∃ token' pending', c'.pending = token' :: pending' ∧
      token'.spelling = token.spelling ∧
      (c.leaving pending).Aligned
        (PaddedFrom called levels token.spelling) (c'.leaving pending') := by
  have hahead := h.ahead
  rw [ahead_pending hpending] at hahead
  obtain ⟨A', hahead', hrest⟩ := hahead.cons hline hclose hcomma
  exact aligned_leaving h.nextId hahead' hrest

theorem Cursor.Aligned.seen {α : Type}
    (h : c.Aligned (PaddedBehind called levels) c') (see : TokenKind → α)
    (hclose : see .rightParen = see .newline)
    (hcomma : see .comma = see .newline) :
    see (firstKind c'.pending) = see (firstKind c.pending) := by
  rw [firstKind_eq, firstKind_eq]
  exact h.ahead.seen see hclose hcomma

/-- What does not open a call behind a word. -/
theorem Cursor.Aligned.padded
    (h : c.Aligned (PaddedBehind called levels) c')
    (hne : firstKind c.pending ≠ .leftParen) :
    c.Aligned (Padded called levels) c' := by
  rw [firstKind_eq] at hne
  exact ⟨h.ahead.padded hne, h.nextId⟩

/-- Behind a token that is no bracket and no comma. -/
theorem Cursor.Aligned.behindToken
    (h : c.Aligned (PaddedFrom called levels token.spelling) c')
    (hmark : token.kind.isMark = false) :
    c.Aligned (PaddedBehind called levels) c' :=
  h.imp fun _ _ hrest => (hrest.plain hmark).1

/-- Behind a word. -/
theorem Cursor.Aligned.consWord (h : c.Aligned (Padded called levels) c')
    (hpending : c.pending = token :: pending)
    (hword : token.kind.isWord = true) :
    ∃ token' pending', c'.pending = token' :: pending' ∧
      token'.spelling = token.spelling ∧
      (c.leaving pending).Aligned (PaddedBehind called levels)
        (c'.leaving pending') := by
  have hkind : ∀ kind : TokenKind, kind.isWord = false → token.kind ≠ kind :=
    fun kind hkind => ne_of_apply_ne TokenKind.isWord
      (by rw [hword, hkind]; decide)
  obtain ⟨token', pending', hpending', hspelling, hrest⟩ :=
    h.cons hpending (hkind _ rfl) (hkind _ rfl) (hkind _ rfl)
  refine ⟨token', pending', hpending', hspelling, hrest.behindToken ?_⟩
  cases hkind : token.kind <;> rw [hkind] at hword <;> first | rfl | cases hword

theorem not_callee (h : token.kind.isWord = false) : ¬ Callee token.spelling := by
  intro hcallee
  have hword : token.kind.isWord = true := hcallee.isWord
  rw [h] at hword
  cases hword

theorem Cursor.Aligned.behindFirm
    (h : c.Aligned (PaddedFrom called levels token.spelling) c')
    (hfirm : token.kind.isFirm = true) : c.Aligned (Padded called levels) c' := by
  unfold TokenKind.isFirm at hfirm
  simp only [Bool.not_eq_true', Bool.or_eq_false_iff] at hfirm
  exact h.imp fun _ _ hrest => (hrest.plain hfirm.1.1.1).2
    fun hboth => not_callee hfirm.1.1.2 hboth.1

end

/-! ## Outcomes -/

/-- Both read a value, related by `V`, up to cursors related by `R`, or both
find the same fault. -/
def Outcome.Agrees {α : Type} {m m' : Nat} (V : α → α → Prop)
    (R : Cursor → Cursor → Prop) (x : Outcome α m) (x' : Outcome α m') : Prop :=
  match x, x' with
  | .done value rest _, .done value' rest' _ => V value value' ∧ R rest rest'
  | .failed fault, .failed fault' =>
    fault'.complaint = fault.complaint ∧ fault'.nextId = fault.nextId
  | _, _ => False

section

variable {α β : Type} {m m' n n' : Nat} {V : α → α → Prop} {W : β → β → Prop}
  {R S : Cursor → Cursor → Prop} {x : Outcome α m} {x' : Outcome α m'}

theorem weaken_refl (x : Outcome α m) : x.weaken (Nat.le_refl m) = x := by
  cases x <;> rfl

theorem weaken_weaken {x : Outcome α m} {k : Nat} (hle : m ≤ k) (hle' : k ≤ n) :
    (x.weaken hle).weaken hle' = x.weaken (Nat.le_trans hle hle') := by
  cases x <;> rfl

theorem Outcome.Agrees.weaken (h : x.Agrees V R x') {hle : m ≤ n}
    {hle' : m' ≤ n'} : (x.weaken hle).Agrees V R (x'.weaken hle') := by
  cases x <;> cases x' <;> exact h

theorem Outcome.Agrees.weakenRight (h : x.Agrees V R x') {hle' : m' ≤ n'} :
    x.Agrees V R (x'.weaken hle') := by
  cases x <;> cases x' <;> exact h

theorem Outcome.Agrees.mono (h : x.Agrees V R x')
    (hRS : ∀ c c', R c c' → S c c') : x.Agrees V S x' := by
  cases x with
  | done a rest _ =>
      cases x' with
      | done a' rest' _ => exact ⟨h.1, hRS _ _ h.2⟩
      | failed fault' => exact h
  | failed fault => cases x' <;> exact h

theorem Outcome.Agrees.map (h : x.Agrees V R x') {f f' : α → β}
    (hf : ∀ a a', V a a' → W (f a) (f' a')) :
    (x.map f).Agrees W R (x'.map f') := by
  cases x with
  | done a rest _ =>
      cases x' with
      | done a' rest' _ => exact ⟨hf a a' h.1, h.2⟩
      | failed fault' => exact h
  | failed fault => cases x' <;> exact h

theorem Outcome.Agrees.bind (h : x.Agrees V R x')
    {next : α → (rest : Cursor) → rest.size < m → Outcome β n}
    {next' : α → (rest : Cursor) → rest.size < m' → Outcome β n'}
    (hnext : ∀ a rest hrest a' rest' hrest', V a a' → R rest rest' →
      (next a rest hrest).Agrees W S (next' a' rest' hrest')) :
    (x.bind next).Agrees W S (x'.bind next') := by
  cases x with
  | done a rest hrest =>
      cases x' with
      | done a' rest' hrest' => exact hnext a rest hrest a' rest' hrest' h.1 h.2
      | failed fault' => exact absurd h id
  | failed fault =>
      cases x' with
      | done a' rest' _ => exact absurd h id
      | failed fault' => exact h

end

/-! ## Single tokens -/

section

variable {called : List Spelling → Prop} {levels : List Bool}
  {R : List Spelling → List Spelling → Prop} {c c' : Cursor}
  {kind : TokenKind}

theorem agrees_fault {α : Type} {m m' : Nat} {V : α → α → Prop}
    {Q : Cursor → Cursor → Prop} (hid : c'.nextId = c.nextId)
    (complaint : Complaint) :
    (Outcome.failed (c.fault complaint) : Outcome α m).Agrees V Q
      (Outcome.failed (c'.fault complaint) : Outcome α m') :=
  ⟨rfl, hid⟩

/-- What is related behind a token that stands first in both or in neither. -/
theorem agrees_expect_of (hid : c'.nextId = c.nextId)
    (hend : kind ≠ .endOfInput)
    (hsame : firstKind c'.pending = kind ↔ firstKind c.pending = kind)
    (hrest : ∀ token pending, c.pending = token :: pending →
      token.kind = kind → ∃ token' pending', c'.pending = token' :: pending' ∧
        token'.spelling = token.spelling ∧
        (c.leaving pending).Aligned R (c'.leaving pending')) (what : String) :
    (c.expect kind what).Agrees
      (fun token token' => token'.spelling = token.spelling)
      (Cursor.Aligned R) (c'.expect kind what) := by
  by_cases hfirst : firstKind c.pending = kind
  · obtain ⟨token, hkind, hpending⟩ := pending_of_firstKind hfirst hend
    obtain ⟨token', pending', hpending', hspelling, haligned⟩ :=
      hrest token _ hpending hkind
    have hkind' : token'.kind = kind := (congrArg Prod.fst hspelling).trans hkind
    rw [expect_some ((eat?_cons hpending kind).trans (if_pos hkind)),
      expect_some ((eat?_cons hpending' kind).trans (if_pos hkind'))]
    refine ⟨?_, haligned⟩
    unfold Cursor.peek
    rw [hpending, hpending']
    exact hspelling
  · rw [expect_none (eat?_none hfirst),
      expect_none (eat?_none fun h => hfirst (hsame.mp h))]
    exact agrees_fault hid _

theorem isFirm_parts (h : kind.isFirm = true) :
    kind ≠ .newline ∧ kind ≠ .rightParen ∧ kind ≠ .comma ∧
      kind ≠ .endOfInput ∧ kind.isMark = false := by
  refine ⟨?_, ?_, ?_, ?_, ?_⟩
  iterate 4 (rintro rfl; cases h)
  unfold TokenKind.isFirm at h
  simp only [Bool.not_eq_true', Bool.or_eq_false_iff] at h
  exact h.1.1.1

theorem Cursor.Aligned.firmSeen (h : c.Aligned (Padded called levels) c')
    (hfirm : kind.isFirm = true) :
    firstKind c'.pending = kind ↔ firstKind c.pending = kind := by
  obtain ⟨hline, hclose, hcomma, _, _⟩ := isFirm_parts hfirm
  exact iff_of_eq (h.behind.seen (· = kind)
    (by simp [hline.symm, hclose.symm]) (by simp [hline.symm, hcomma.symm]))

theorem agrees_expect (h : c.Aligned (Padded called levels) c')
    (hfirm : kind.isFirm = true) (what : String) :
    (c.expect kind what).Agrees
      (fun token token' => token'.spelling = token.spelling)
      (Cursor.Aligned (Padded called levels)) (c'.expect kind what) := by
  obtain ⟨hline, hclose, hcomma, hend, _⟩ := isFirm_parts hfirm
  refine agrees_expect_of h.nextId hend (h.firmSeen hfirm) ?_ what
  intro token pending hpending hkind
  obtain ⟨token', pending', hpending', hspelling, hrest⟩ :=
    h.cons hpending (by rwa [hkind]) (by rwa [hkind]) (by rwa [hkind])
  exact ⟨token', pending', hpending', hspelling,
    hrest.behindFirm (by rwa [hkind])⟩

theorem Cursor.Aligned.uneaten (h : c.Aligned (Padded called levels) c')
    (hfirm : kind.isFirm = true) (heat : c.eat? kind = none) :
    c'.eat? kind = none := by
  obtain ⟨_, _, _, hend, _⟩ := isFirm_parts hfirm
  apply eat?_none
  intro hkind
  obtain ⟨token, htoken, hpending⟩ :=
    pending_of_firstKind ((h.firmSeen hfirm).mp hkind) hend
  rw [eat?_cons hpending, if_pos htoken] at heat
  cases heat

theorem Cursor.Aligned.eaten (h : c.Aligned (Padded called levels) c')
    (hfirm : kind.isFirm = true)
    {rest : { rest : Cursor // rest.size < c.size }}
    (heat : c.eat? kind = some rest) :
    ∃ rest', c'.eat? kind = some rest' ∧
      rest.1.Aligned (Padded called levels) rest'.1 := by
  obtain ⟨hline, hclose, hcomma, _, _⟩ := isFirm_parts hfirm
  obtain ⟨token, hkind, hpending, hsame⟩ := eaten_of_eat? heat
  obtain ⟨token', pending', hpending', hspelling, hrest⟩ :=
    h.cons hpending (by rwa [hkind]) (by rwa [hkind]) (by rwa [hkind])
  have hkind' : token'.kind = kind := (congrArg Prod.fst hspelling).trans hkind
  refine ⟨_, (eat?_cons hpending' kind).trans (if_pos hkind'), ?_⟩
  rw [hsame]
  exact hrest.behindFirm (by rwa [hkind])

theorem agrees_unindex (h : c.Aligned (Padded called (false :: levels)) c')
    (what : String) :
    (c.expect .rightBracket what).Agrees
      (fun token token' => token'.spelling = token.spelling)
      (Cursor.Aligned (Padded called levels))
      (c'.expect .rightBracket what) := by
  refine agrees_expect_of h.nextId (by decide)
    (iff_of_eq (h.behind.seen (· = .rightBracket) (by simp) (by simp))) ?_ what
  intro token pending hpending hkind
  obtain ⟨token', pending', hpending', hspelling, hrest⟩ :=
    h.cons hpending (by rw [hkind]; decide) (by rw [hkind]; decide)
      (by rw [hkind]; decide)
  exact ⟨token', pending', hpending', hspelling,
    hrest.imp fun _ _ hrest => hrest.unindex hkind⟩

theorem firstKind_skipNewlines (c : Cursor) :
    firstKind c.skipNewlines.pending ≠ .newline := by
  rw [firstKind_eq, ahead_skipNewlines]
  exact headKind_pastBreaks _

theorem agrees_close (h : c.Aligned (Padded called (false :: levels)) c')
    (what : String) :
    (c.skipNewlines.expect .rightParen what).Agrees
      (fun token token' => token'.spelling = token.spelling)
      (Cursor.Aligned (Padded called levels))
      (c'.skipNewlines.expect .rightParen what) := by
  have hskip := h.skipNewlines
  have hline := firstKind_skipNewlines c
  have hline' := firstKind_skipNewlines c'
  rw [firstKind_eq] at hline hline'
  have hsame := hskip.ahead.headKind_eq rfl hline hline'
  refine agrees_expect_of hskip.nextId
    (by decide : TokenKind.rightParen ≠ .endOfInput) ?_ ?_ what
  · rw [firstKind_eq, firstKind_eq, hsame]
  · intro token pending hpending hkind
    have hahead := hskip.ahead
    rw [ahead_pending hpending] at hahead
    obtain ⟨Z, B, C, hsplit, hZ, hB, hrest⟩ := hahead.close_inv hkind
    obtain rfl : Z = [] := by
      rcases hZ with hZ | ⟨hlevel, _⟩
      · exact hZ
      · cases hlevel
    rw [List.nil_append] at hsplit
    rw [← hsplit, pastBreaks_eq hline'] at hB
    exact aligned_leaving h.nextId hB hrest

theorem firm_of_operator? {level : Level} {op : BinaryOp}
    (h : level.operator? kind = some op) : kind.isFirm = true := by
  cases kind <;> first | rfl | (cases level <;> cases h)

theorem firm_of_unaryOperator? {op : UnaryOp}
    (h : unaryOperator? kind = some op) : kind.isFirm = true := by
  cases kind <;> first | rfl | cases h

theorem Cursor.Aligned.consFirm (h : c.Aligned (Padded called levels) c')
    {token : Token} {pending : List Token}
    (hpending : c.pending = token :: pending)
    (hfirm : token.kind.isFirm = true) :
    ∃ token' pending', c'.pending = token' :: pending' ∧
      token'.kind = token.kind ∧
      (c.leaving pending).Aligned (Padded called levels)
        (c'.leaving pending') := by
  obtain ⟨hline, hclose, hcomma, _, _⟩ := isFirm_parts hfirm
  obtain ⟨token', pending', hpending', hspelling, hrest⟩ :=
    h.cons hpending hline hclose hcomma
  exact ⟨token', pending', hpending', congrArg Prod.fst hspelling,
    hrest.behindFirm hfirm⟩

theorem Cursor.Aligned.group {token : Token}
    (h : c.Aligned (PaddedFrom called levels token.spelling) c')
    (hkind : token.kind = .leftParen) :
    c.skipNewlines.Aligned (Padded called (false :: levels))
      c'.skipNewlines := by
  refine ⟨?_, h.nextId⟩
  rw [ahead_skipNewlines, ahead_skipNewlines]
  exact h.ahead.group hkind

end

end Barscript.Script

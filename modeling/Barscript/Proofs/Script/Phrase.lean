import Barscript.Script.Grammar
import Barscript.Proofs.Script.Calls

/-!
# What a phrase leaves behind

Four facts about every phrase of the grammar, from one induction over its
rules. A phrase closes the brackets it opens and has no comma outside them, so
the end of an argument is the same seen from before and from behind a phrase
in it. What is left behind a phrase is the end of what was left before it
(`Cursor.Leads`). And the calls of a phrase are numbered upwards in the order in which
they are completed (`Numbered`), also where an argument is read in vain and
dropped. A fault is about a token that was left (`Later`).
-/

namespace Barscript.Script

/-! ## Outcomes -/

/-- What holds of the value and the cursor behind it, or else of the fault. -/
def Outcome.Meets {α : Type} {n : Nat} (x : Outcome α n)
    (P : α → Cursor → Prop) (F : Fault → Prop) : Prop :=
  match x with
  | .done value rest _ => P value rest
  | .failed fault => F fault

section

variable {α β : Type} {m n : Nat} {P : α → Cursor → Prop} {F : Fault → Prop}
  {Q : β → Cursor → Prop}

theorem Outcome.Meets.weaken {x : Outcome α m} (h : x.Meets P F)
    (hle : m ≤ n) : (x.weaken hle).Meets P F := by
  cases x <;> exact h

theorem Outcome.Meets.map {x : Outcome α n} {f : α → β} (h : x.Meets P F)
    (hf : ∀ a rest, P a rest → Q (f a) rest) : (x.map f).Meets Q F := by
  cases x with
  | done a rest _ => exact hf a rest h
  | failed fault => exact h

theorem Outcome.Meets.bind {x : Outcome α m}
    {next : α → (rest : Cursor) → rest.size < m → Outcome β n}
    (h : x.Meets P F)
    (hnext : ∀ a rest hrest, P a rest → (next a rest hrest).Meets Q F) :
    (x.bind next).Meets Q F := by
  cases x with
  | done a rest hrest => exact hnext a rest hrest h
  | failed fault => exact h

theorem Outcome.Meets.mono {P' : α → Cursor → Prop} {F' : Fault → Prop}
    {x : Outcome α n} (h : x.Meets P F)
    (hP : ∀ a rest, P a rest → P' a rest) (hF : ∀ f, F f → F' f) :
    x.Meets P' F' := by
  cases x with
  | done a rest _ => exact hP a rest h
  | failed fault => exact hF fault h

theorem Outcome.Meets.imp {P' : α → Cursor → Prop} {x : Outcome α n}
    (h : x.Meets P F) (hP : ∀ a rest, P a rest → P' a rest) : x.Meets P' F :=
  h.mono hP fun _ => id

/-- Nothing is said of the fault. -/
theorem Outcome.Meets.ofDone {x : Outcome α n} (h : x.Meets P F) :
    x.Meets P fun _ => True :=
  h.mono (fun _ _ => id) fun _ _ => trivial

end

/-! ## Levels of brackets -/

/-- The tokens that matter to the end of an argument. -/
def TokenKind.isMark : TokenKind → Bool
  | .leftParen | .leftBracket | .rightParen | .rightBracket | .comma => true
  | _ => false

section

variable {token : Token} {rest : List Token}

theorem skipArgument_plain (h : token.kind.isMark = false) (depth : Nat) :
    skipArgument depth (token :: rest) = skipArgument depth rest := by
  rw [skipArgument]
  cases hkind : token.kind <;> rw [hkind] at h <;> first | rfl | cases h

theorem skipArgument_opening
    (h : token.kind = .leftParen ∨ token.kind = .leftBracket) (depth : Nat) :
    skipArgument depth (token :: rest) = skipArgument (depth + 1) rest := by
  rw [skipArgument]
  rcases h with h | h <;> rw [h]

theorem skipArgument_closing
    (h : token.kind = .rightParen ∨ token.kind = .rightBracket)
    (depth : Nat) :
    skipArgument (depth + 1) (token :: rest) = skipArgument depth rest := by
  rw [skipArgument]
  rcases h with h | h <;> rw [h] <;> rfl

theorem skipArgument_comma (h : token.kind = .comma) (depth : Nat) :
    skipArgument (depth + 1) (token :: rest) =
      skipArgument (depth + 1) rest := by
  rw [skipArgument, h]
  rfl

theorem skipArgument_end
    (h : token.kind = .rightParen ∨ token.kind = .comma) :
    skipArgument 0 (token :: rest) = some (token :: rest) := by
  rw [skipArgument]
  rcases h with h | h <;> rw [h] <;> rfl

end

/-- Where an argument ends, the tokens from its end on are left. -/
theorem suffix_skipArgument {depth : Nat} {pending left : List Token}
    (h : skipArgument depth pending = some left) : left <:+ pending := by
  fun_induction skipArgument depth pending with
  | case1 => cases h
  | case4 | case8 =>
      cases h
      exact List.suffix_refl _
  | case6 => cases h
  | case2 _ _ _ _ ih | case3 _ _ _ _ ih | case5 _ _ _ _ _ ih
  | case7 _ _ _ _ _ ih | case9 _ _ _ _ _ ih | case10 _ _ _ _ _ _ _ _ ih =>
      exact (ih h).trans (List.suffix_cons _ _)

theorem suffix_splitName (pending : List Token) :
    (splitName pending).2 <:+ pending := by
  unfold splitName
  split
  · split
    · exact (List.suffix_cons _ _).trans (List.suffix_cons _ _)
    · exact List.suffix_refl _
  · exact List.suffix_refl _

theorem skipArgument_behindNewlines (depth : Nat) (pending : List Token) :
    skipArgument depth (behindNewlines pending) =
      skipArgument depth pending := by
  induction pending with
  | nil => rfl
  | cons token rest ih =>
      by_cases hkind : token.kind = .newline
      · have hdrop : behindNewlines (token :: rest) = behindNewlines rest := by
          rw [behindNewlines, List.dropWhile_cons, if_pos (by simp [hkind])]
          rfl
        rw [hdrop, ih, skipArgument_plain (by rw [hkind]; rfl)]
      · have hkeep : behindNewlines (token :: rest) = token :: rest := by
          rw [behindNewlines, List.dropWhile_cons, if_neg (by simp [hkind])]
        rw [hkeep]

theorem skipArgument_splitName (depth : Nat) (pending : List Token) :
    skipArgument depth (splitName pending).2 =
      skipArgument depth pending := by
  unfold splitName
  split
  · rename_i word sign rest
    split
    · rename_i hname
      have hword : word.kind.isMark = false := by
        rcases hname.1 with h | h <;> rw [h] <;> rfl
      have hsign : sign.kind.isMark = false := by rw [hname.2]; rfl
      rw [skipArgument_plain hword, skipArgument_plain hsign]
    · rfl
  · rfl

/-- Where an argument ends is seen from the classes of the tokens. -/
theorem skipArgument_map {f : Token → Token}
    (hf : ∀ token, (f token).kind = token.kind) (depth : Nat)
    (pending : List Token) :
    skipArgument depth (pending.map f) =
      (skipArgument depth pending).map (List.map f) := by
  induction pending generalizing depth with
  | nil => rfl
  | cons token rest ih =>
      rw [List.map_cons, skipArgument, skipArgument, hf]
      cases token.kind with
      | leftParen | leftBracket => exact ih (depth + 1)
      | rightParen | rightBracket | comma =>
          dsimp only
          split
          · rfl
          · exact ih _
      | _ => exact ih depth

/-- What ends an argument also ends it for the brackets around: seen from
inside of them nothing happens before. -/
theorem skipArgument_of_some {depth : Nat} {pending left : List Token}
    (h : skipArgument depth pending = some left) (outer : Nat) :
    skipArgument (depth + (outer + 1)) pending =
      skipArgument (outer + 1) left := by
  -- With more brackets around, the depth stays positive up to the end.
  fun_induction skipArgument depth pending with
  | case1 => cases h
  | case2 depth token rest hkind ih =>
      rw [skipArgument_opening (Or.inl hkind), ← ih h]
      congr 1
      omega
  | case3 depth token rest hkind ih =>
      rw [skipArgument_opening (Or.inr hkind), ← ih h]
      congr 1
      omega
  | case4 token rest hkind =>
      cases h
      rw [Nat.zero_add]
  | case5 depth token rest hkind hdepth ih =>
      rw [← ih h, show depth + (outer + 1) = depth - 1 + (outer + 1) + 1
        by omega, skipArgument_closing (Or.inl hkind)]
  | case6 => cases h
  | case7 depth token rest hkind hdepth ih =>
      rw [← ih h, show depth + (outer + 1) = depth - 1 + (outer + 1) + 1
        by omega, skipArgument_closing (Or.inr hkind)]
  | case8 token rest hkind =>
      cases h
      rw [Nat.zero_add]
  | case9 depth token rest hkind hdepth ih =>
      rw [← ih h]
      exact skipArgument_comma hkind (depth + outer)
  | case10 depth token rest hopen hopen' hclose hclose' hcomma ih =>
      rw [← ih h]
      refine skipArgument_plain ?_ _
      cases hkind : token.kind <;> first | rfl | exact absurd hkind ‹_›

/-! ## Numbers of calls -/

/-- The identity of a call. -/
def callId : Expr → Nat
  | .call id _ _ => id
  | _ => 0

/-- Calls with identities from `low` to before `high`, in their order. -/
structure Numbered (low high : Nat) (calls : List Expr) : Prop where
  le : low ≤ high
  range : ∀ call ∈ calls, low ≤ callId call ∧ callId call < high
  increasing : calls.Pairwise fun a b => callId a < callId b

theorem Numbered.nil {low high : Nat} (h : low ≤ high) :
    Numbered low high [] :=
  ⟨h, fun _ hc => absurd hc List.not_mem_nil, List.Pairwise.nil⟩

theorem Numbered.append {low middle high : Nat} {xs ys : List Expr}
    (h : Numbered low middle xs) (h' : Numbered middle high ys) :
    Numbered low high (xs ++ ys) := by
  refine ⟨Nat.le_trans h.le h'.le, ?_, ?_⟩
  · intro call hcall
    have hlow := h.le
    have hhigh := h'.le
    rcases List.mem_append.mp hcall with hcall | hcall
    · have hrange := h.range call hcall
      omega
    · have hrange := h'.range call hcall
      omega
  · rw [List.pairwise_append]
    refine ⟨h.increasing, h'.increasing, ?_⟩
    intro a ha b hb
    exact Nat.lt_of_lt_of_le (h.range a ha).2 (h'.range b hb).1

/-- A call completed behind its arguments. -/
theorem Numbered.call {low high : Nat} {calls : List Expr}
    (h : Numbered low high calls) (name : String)
    (args : List (Argument Expr)) :
    Numbered low (high + 1) (calls ++ [.call high name args]) := by
  refine h.append ⟨Nat.le_succ high, ?_, List.pairwise_singleton _ _⟩
  intro call hcall
  obtain rfl := List.mem_singleton.mp hcall
  exact ⟨Nat.le_refl high, Nat.lt_succ_self high⟩

/-! ## What is left -/

/-- What is left at `rest` is the end of what is left at `c`. -/
structure Cursor.Leads (c rest : Cursor) : Prop where
  suffix : rest.pending <:+ c.pending
  finish : rest.finish = c.finish

section

variable {c middle rest : Cursor}

theorem Cursor.Leads.refl (c : Cursor) : c.Leads c :=
  ⟨List.suffix_refl _, rfl⟩

theorem Cursor.Leads.trans (h : c.Leads middle) (h' : middle.Leads rest) :
    c.Leads rest :=
  ⟨h'.suffix.trans h.suffix, h'.finish.trans h.finish⟩

theorem leads_leaving {pending : List Token} (h : pending <:+ c.pending) :
    c.Leads (c.leaving pending) :=
  ⟨h, rfl⟩

theorem leads_token {token : Token} {pending : List Token}
    (h : c.pending = token :: pending) : c.Leads (c.leaving pending) := by
  refine leads_leaving ?_
  rw [h]
  exact List.suffix_cons _ _

theorem leads_tail (c : Cursor) : c.Leads (c.leaving c.pending.tail) :=
  leads_leaving (List.tail_suffix _)

theorem leads_newlines (c : Cursor) : c.Leads c.skipNewlines :=
  leads_leaving (List.dropWhile_suffix _)

end

/-! ## Phrases -/

/-- From `c` to `rest` a phrase with the given calls was read. -/
structure Phrase (c : Cursor) (calls : List Expr) (rest : Cursor) : Prop where
  leads : c.Leads rest
  ends : ∀ depth, skipArgument depth c.pending =
    skipArgument depth rest.pending
  numbered : Numbered c.nextId rest.nextId calls

/-- From `c` inside of brackets to `rest` behind them. -/
structure Closing (c : Cursor) (calls : List Expr) (rest : Cursor) :
    Prop where
  leads : c.Leads rest
  ends : ∀ depth, skipArgument (depth + 1) c.pending =
    skipArgument depth rest.pending
  numbered : Numbered c.nextId rest.nextId calls

/-- A fault is about a token that was left, and remembers the calls completed
before it. It says of a token that it is no number only where this is so. -/
structure Later (c : Cursor) (fault : Fault) : Prop where
  count : c.nextId ≤ fault.nextId
  token : ∃ d, c.Leads d ∧ fault.token = d.peek
  number : fault.complaint = .badNumber →
    fault.token.kind = .number ∧ Decimal.readText? fault.token.value = none

theorem Later.here (c : Cursor) {complaint : Complaint}
    (h : complaint ≠ .badNumber) : Later c (c.fault complaint) :=
  ⟨Nat.le_refl _, ⟨c, .refl c, rfl⟩, fun hbad => absurd hbad h⟩

theorem Later.badNumber {c : Cursor} {token : Token} {pending : List Token}
    (h : c.pending = token :: pending) (hkind : token.kind = .number)
    (hx : Decimal.readText? token.value = none) :
    Later c (c.fault .badNumber) := by
  have hpeek : c.peek = token := by
    unfold Cursor.peek
    rw [h]
    rfl
  refine ⟨Nat.le_refl _, ⟨c, .refl c, rfl⟩, fun _ => ?_⟩
  show c.peek.kind = .number ∧ Decimal.readText? c.peek.value = none
  rw [hpeek]
  exact ⟨hkind, hx⟩

theorem Later.further {c middle : Cursor} {fault : Fault}
    (hf : Later middle fault) (hleads : c.Leads middle)
    (hid : c.nextId ≤ middle.nextId) : Later c fault := by
  obtain ⟨d, hd, htoken⟩ := hf.token
  exact ⟨Nat.le_trans hid hf.count, ⟨d, hleads.trans hd, htoken⟩, hf.number⟩

section

variable {c middle rest : Cursor} {xs ys : List Expr}

theorem Phrase.trans (h : Phrase c xs middle) (h' : Phrase middle ys rest) :
    Phrase c (xs ++ ys) rest :=
  ⟨h.leads.trans h'.leads, fun depth => (h.ends depth).trans (h'.ends depth),
    h.numbered.append h'.numbered⟩

theorem Phrase.closing (h : Phrase c xs middle)
    (h' : Closing middle ys rest) : Closing c (xs ++ ys) rest :=
  ⟨h.leads.trans h'.leads, fun depth => (h.ends (depth + 1)).trans (h'.ends depth),
    h.numbered.append h'.numbered⟩

theorem Later.behind {fault : Fault} (h : Phrase c xs rest)
    (hf : Later rest fault) : Later c fault :=
  hf.further h.leads h.numbered.le

/-- A token that is no mark. -/
theorem phrase_token {token : Token} {pending : List Token}
    (h : c.pending = token :: pending) (hmark : token.kind.isMark = false) :
    Phrase c [] (c.leaving pending) := by
  refine ⟨leads_token h, ?_, .nil (Nat.le_refl _)⟩
  intro depth
  rw [h]
  exact skipArgument_plain hmark depth

theorem phrase_newlines (c : Cursor) : Phrase c [] c.skipNewlines :=
  ⟨leads_newlines c,
    fun depth => (skipArgument_behindNewlines depth c.pending).symm,
    .nil (Nat.le_refl _)⟩

end

/-! ## Single tokens -/

/-- One token of a class was read. -/
def Eaten (kind : TokenKind) (c rest : Cursor) : Prop :=
  ∃ token, token.kind = kind ∧ c.pending = token :: rest.pending ∧
    rest = c.leaving rest.pending

theorem Eaten.leads {kind : TokenKind} {c rest : Cursor}
    (h : Eaten kind c rest) : c.Leads rest := by
  obtain ⟨_, _, hpending, hsame⟩ := h
  rw [hsame]
  exact leads_token hpending

theorem Eaten.nextId {kind : TokenKind} {c rest : Cursor}
    (h : Eaten kind c rest) : rest.nextId = c.nextId := by
  obtain ⟨_, _, _, hsame⟩ := h
  rw [hsame]
  rfl

theorem eaten_of_eat? {c : Cursor} {kind : TokenKind}
    {r : { rest : Cursor // rest.size < c.size }}
    (h : c.eat? kind = some r) : Eaten kind c r.1 := by
  unfold Cursor.eat? at h
  split at h
  · cases h
  · rename_i token pending hpending
    split at h
    · rename_i hkind
      cases h
      exact ⟨token, hkind, hpending, rfl⟩
    · cases h

theorem meets_expect (c : Cursor) (kind : TokenKind) (what : String) :
    (c.expect kind what).Meets (fun _ rest => Eaten kind c rest)
      (Later c) := by
  unfold Cursor.expect
  split
  · rename_i r hr
    exact eaten_of_eat? hr
  · exact .here c nofun

theorem Eaten.phrase {kind : TokenKind} {c rest : Cursor}
    (h : Eaten kind c rest) (hmark : kind.isMark = false) :
    Phrase c [] rest := by
  obtain ⟨token, hkind, hpending, hrest⟩ := h
  rw [hrest]
  exact phrase_token hpending (by rw [hkind]; exact hmark)

/-- A closing bracket. -/
theorem Eaten.closing {kind : TokenKind} {c rest : Cursor}
    (h : Eaten kind c rest)
    (hkind : kind = .rightParen ∨ kind = .rightBracket) :
    Closing c [] rest := by
  have hleads := h.leads
  obtain ⟨token, htoken, hpending, hrest⟩ := h
  refine ⟨hleads, ?_, ?_⟩
  · intro depth
    rw [hpending]
    exact skipArgument_closing (by rw [htoken]; exact hkind) depth
  · rw [hrest]
    exact .nil (Nat.le_refl _)

/-- A comma inside of brackets. -/
theorem Closing.afterComma {c middle rest : Cursor} {calls : List Expr}
    (h : Closing middle calls rest) (hcomma : Eaten .comma c middle) :
    Closing c calls rest := by
  refine ⟨hcomma.leads.trans h.leads, ?_, ?_⟩
  · intro depth
    obtain ⟨token, htoken, hpending, _⟩ := hcomma
    rw [hpending, skipArgument_comma htoken]
    exact h.ends depth
  · rw [← hcomma.nextId]
    exact h.numbered

/-- A phrase in brackets. -/
theorem Closing.bracketed {c inner rest : Cursor} {calls : List Expr}
    (h : Closing inner calls rest) (hleads : c.Leads inner)
    (hopen : ∀ depth, skipArgument depth c.pending =
      skipArgument (depth + 1) inner.pending)
    (hid : inner.nextId = c.nextId) : Phrase c calls rest := by
  refine ⟨hleads.trans h.leads,
    fun depth => (hopen depth).trans (h.ends depth), ?_⟩
  rw [← hid]
  exact h.numbered

/-- A fault behind a phrase. -/
theorem Outcome.Meets.behind {α : Type} {n : Nat} {P : α → Cursor → Prop}
    {x : Outcome α n} {c middle : Cursor} {calls : List Expr}
    (h : x.Meets P (Later middle)) (hphrase : Phrase c calls middle) :
    x.Meets P (Later c) :=
  h.mono (fun _ _ => id) fun _ => Later.behind hphrase

/-- A fault behind a cursor with the same count of calls. -/
theorem Outcome.Meets.sameCount {α : Type} {n : Nat}
    {P : α → Cursor → Prop} {x : Outcome α n} {c middle : Cursor}
    (h : x.Meets P (Later middle)) (hleads : c.Leads middle)
    (hid : middle.nextId = c.nextId) : x.Meets P (Later c) :=
  h.mono (fun _ _ => id) fun _ hfault =>
    hfault.further hleads (Nat.le_of_eq hid.symm)

/-- A phrase in brackets, of which the closing one is still expected. -/
theorem meets_group {c inner rest : Cursor} {calls : List Expr}
    (h : Phrase inner calls rest) (hleads : c.Leads inner)
    (hopen : ∀ depth, skipArgument depth c.pending =
      skipArgument (depth + 1) inner.pending)
    (hid : inner.nextId = c.nextId) {kind : TokenKind}
    (hkind : kind = .rightParen ∨ kind = .rightBracket) (what : String)
    (f : Token → Expr) (hf : ∀ token, (f token).calls = calls) :
    ((rest.expect kind what).map f).Meets
      (fun e rest' => Phrase c e.calls rest') (Later c) := by
  refine (((meets_expect rest kind what).behind h).sameCount hleads hid).map ?_
  intro token rest' hclose
  have hclosing := h.closing (hclose.closing hkind)
  rw [List.append_nil] at hclosing
  rw [hf]
  exact hclosing.bracketed hleads hopen hid

theorem pending_of_firstKind {pending : List Token} {kind : TokenKind}
    (h : firstKind pending = kind) (hne : kind ≠ .endOfInput) :
    ∃ token, token.kind = kind ∧ pending = token :: pending.tail := by
  cases pending with
  | nil => exact absurd h.symm hne
  | cons token rest => exact ⟨token, h, rfl⟩

theorem isMark_of_operator? {level : Level} {kind : TokenKind}
    {op : BinaryOp} (h : level.operator? kind = some op) :
    kind.isMark = false := by
  cases kind <;> first | rfl | (cases level <;> cases h)

theorem isMark_of_unaryOperator? {kind : TokenKind} {op : UnaryOp}
    (h : unaryOperator? kind = some op) : kind.isMark = false := by
  cases kind <;> first | rfl | cases h

theorem isMark_of_isName {token : Token} (h : token.isName = true) :
    token.kind.isMark = false := by
  unfold Token.isName at h
  cases hkind : token.kind <;> rw [hkind] at h <;> first | rfl | cases h

/-! ## The induction -/

mutual

theorem phrase_expression (c : Cursor) :
    (expression c).Meets (fun e rest => Phrase c e.calls rest)
      (Later c) := by
  rw [expression]
  refine (phrase_chain .disjunction c).bind ?_
  intro condition rest hrest hcondition
  split
  · exact hcondition
  · rename_i rest₁ hrest₁ heat
    have hquestion := hcondition.trans ((eaten_of_eat? heat).phrase rfl)
    refine ((phrase_expression rest₁).behind hquestion).bind ?_
    intro whenTrue rest₂ hrest₂ hwhenTrue
    have htrue := hquestion.trans hwhenTrue
    refine ((meets_expect rest₂ .colon "':'").behind htrue).bind ?_
    intro _ rest₃ hrest₃ hcolon
    have hbehind := htrue.trans (hcolon.phrase rfl)
    refine ((phrase_expression rest₃).behind hbehind).bind ?_
    intro whenFalse rest₄ _ hwhenFalse
    have hall := hbehind.trans hwhenFalse
    simp only [List.append_nil] at hall
    exact hall
termination_by 20 * c.size + 14
decreasing_by
  · simp only [Level.height]
    omega
  · omega
  · omega

theorem phrase_chain (level : Level) (c : Cursor) :
    (chain level c).Meets (fun e rest => Phrase c e.calls rest)
      (Later c) := by
  rw [chain]
  refine (phrase_operand level c).bind ?_
  intro left rest hrest hleft
  exact (phrase_chainRest level left rest hleft).weaken _
termination_by 20 * c.size + 2 * level.height + 3

theorem phrase_operand (level : Level) (c : Cursor) :
    (operand level c).Meets (fun e rest => Phrase c e.calls rest)
      (Later c) := by
  rw [operand]
  split
  · rename_i next hnext
    exact phrase_chain next c
  · exact phrase_unary c
termination_by 20 * c.size + 2 * level.height + 2
decreasing_by
  · have hheight := Level.height_tighter? ‹_›
    omega
  · omega

/-- The operands read so far count as read by the chain. -/
theorem phrase_chainRest (level : Level) (left : Expr) (c : Cursor)
    {start : Cursor} (hleft : Phrase start left.calls c) :
    (chainRest level left c).Meets
      (fun e rest => Phrase start e.calls rest) (Later start) := by
  rw [chainRest]
  split
  · exact hleft
  · rename_i token pending hpending
    have hsize : (c.leaving pending).size < c.size :=
      Cursor.size_leaving_lt hpending
    split
    · exact hleft
    · rename_i op hop
      have hoperator := hleft.trans
        (phrase_token hpending (isMark_of_operator? hop))
      refine ((phrase_operand level (c.leaving pending)).behind
        hoperator).bind ?_
      intro right rest hrest hright
      refine (phrase_chainRest level (.binary op left right) rest ?_).weaken _
      have hboth := hoperator.trans hright
      rw [List.append_nil] at hboth
      exact hboth
termination_by 20 * c.size + 1
decreasing_by
  · have hheight := level.height_le
    omega
  · omega

theorem phrase_unary (c : Cursor) :
    (unary c).Meets (fun e rest => Phrase c e.calls rest)
      (Later c) := by
  rw [unary]
  split
  · exact phrase_primary c
  · rename_i token pending hpending
    have hsize : (c.leaving pending).size < c.size :=
      Cursor.size_leaving_lt hpending
    split
    · exact phrase_primary c
    · rename_i op hop
      have hoperator := phrase_token hpending (isMark_of_unaryOperator? hop)
      apply Outcome.Meets.weaken
      refine ((phrase_unary (c.leaving pending)).behind hoperator).map ?_
      intro inner rest hinner
      exact hoperator.trans hinner
termination_by 20 * c.size + 1

theorem phrase_primary (c : Cursor) :
    (primary c).Meets (fun e rest => Phrase c e.calls rest)
      (Later c) := by
  rw [primary]
  split
  · exact .here c nofun
  · rename_i token pending hpending
    have hsize : (c.leaving pending).size < c.size :=
      Cursor.size_leaving_lt hpending
    have hplain : ∀ e : Expr, e.calls = [] →
        token.kind.isMark = false →
        Phrase c e.calls (c.leaving pending) := by
      intro e he hmark
      rw [he]
      exact phrase_token hpending hmark
    split
    · rename_i hkind
      split
      · exact hplain _ rfl (by rw [hkind]; rfl)
      · exact .badNumber hpending hkind ‹_›
    · split
      · rename_i hkind
        exact hplain _ rfl (by rw [hkind]; rfl)
      · split
        · rename_i hkind
          exact hplain _ rfl (by rw [hkind]; rfl)
        · split
          · -- An expression in parentheses.
            rename_i hkind
            have hskip := (c.leaving pending).size_skipNewlines
            have hleads := (leads_token hpending).trans
              (leads_newlines (c.leaving pending))
            refine ((phrase_expression
              (c.leaving pending).skipNewlines).sameCount hleads rfl).bind ?_
            intro inner rest hrest hinner
            have hbehind := hinner.trans (phrase_newlines rest)
            rw [List.append_nil] at hbehind
            refine (meets_group hbehind hleads ?_ rfl (Or.inl rfl) "')'"
              (fun _ => inner) fun _ => rfl).weaken _
            intro depth
            rw [hpending, skipArgument_opening (Or.inl hkind)]
            exact (skipArgument_behindNewlines (depth + 1) pending).symm
          · split
            · rename_i hname
              have htoken := phrase_token hpending (isMark_of_isName hname)
              split
              · -- A call has its number from behind its arguments.
                refine ((phrase_callArguments (c.leaving pending)).behind
                  htoken).bind ?_
                intro args rest hrest hargs
                have hcall := htoken.trans hargs
                exact ⟨⟨hcall.leads.suffix, hcall.leads.finish⟩, hcall.ends,
                  hcall.numbered.call token.value args⟩
              · split
                · -- A name with an index.
                  rename_i hindex
                  have htail := Cursor.size_leaving_tail_lt hpending
                  obtain ⟨bracket, hbracket, htokens⟩ :=
                    pending_of_firstKind hindex.2 (by decide)
                  have hleads := (leads_token hpending).trans
                    (leads_tail (c.leaving pending))
                  refine ((phrase_expression
                    (c.leaving pending.tail)).sameCount hleads rfl).bind ?_
                  intro offset rest hrest hoffset
                  refine (meets_group hoffset hleads ?_ rfl (Or.inr rfl) "']'"
                    (fun _ => .indexed token.value offset)
                    fun _ => rfl).weaken _
                  intro depth
                  rw [htoken.ends depth]
                  show skipArgument depth pending =
                    skipArgument (depth + 1) pending.tail
                  rw [htokens]
                  exact skipArgument_opening (Or.inr hbracket) depth
                · exact hplain _ rfl (isMark_of_isName hname)
            · exact .here c nofun
termination_by 20 * c.size + 0
decreasing_by
  · omega
  · omega
  · omega

theorem phrase_callArguments (c : Cursor) :
    (callArguments c).Meets
      (fun args rest => Phrase c (argumentCalls args) rest)
      (Later c) := by
  rw [callArguments]
  refine (meets_expect c .leftParen "'('").bind ?_
  intro _ rest hrest hopen
  apply Outcome.Meets.weaken
  have hid := hopen.nextId
  have hleads := hopen.leads
  obtain ⟨token, hkind, hpending, _⟩ := hopen
  refine ((closing_arguments true rest).sameCount hleads hid).imp ?_
  intro args rest' hargs
  refine hargs.bracketed hleads ?_ hid
  intro depth
  rw [hpending]
  exact skipArgument_opening (Or.inl hkind) depth
termination_by 20 * c.size + 0

theorem closing_arguments (first : Bool) (c : Cursor) :
    (arguments first c).Meets
      (fun args rest => Closing c (argumentCalls args) rest)
      (Later c) := by
  have hskip := c.size_skipNewlines
  have hnewlines := phrase_newlines c
  rw [arguments]
  split
  · rename_i rest _ heat
    exact hnewlines.closing ((eaten_of_eat? heat).closing (Or.inl rfl))
  · split
    · apply Outcome.Meets.weaken
      refine ((closing_argument c.skipNewlines).behind hnewlines).imp ?_
      intro args rest hargs
      exact hnewlines.closing hargs
    · refine ((meets_expect c.skipNewlines .comma "',' or ')'").behind
        hnewlines).bind ?_
      intro _ rest hrest hcomma
      have hskip' := rest.size_skipNewlines
      have hid : rest.skipNewlines.nextId = c.nextId := hcomma.nextId
      have hclosing : ∀ {calls rest'},
          Closing rest.skipNewlines calls rest' → Closing c calls rest' :=
        fun h => hnewlines.closing
          (((phrase_newlines rest).closing h).afterComma hcomma)
      split
      · rename_i rest' _ heat
        exact hclosing ((eaten_of_eat? heat).closing (Or.inl rfl))
      · apply Outcome.Meets.weaken
        have hleads := hnewlines.leads.trans
          (hcomma.leads.trans (leads_newlines rest))
        refine ((closing_argument rest.skipNewlines).sameCount hleads hid).imp ?_
        intro args rest' hargs
        exact hclosing hargs
termination_by 20 * c.size + if first then 17 else 15
decreasing_by
  · simp only [*]
    omega
  · split <;> omega

theorem closing_argument (c : Cursor) :
    (argument c).Meets
      (fun args rest => Closing c (argumentCalls args) rest)
      (Later c) := by
  have hname : Phrase c [] (c.leaving (splitName c.pending).2) :=
    ⟨leads_leaving (suffix_splitName c.pending),
      fun depth => (skipArgument_splitName depth c.pending).symm,
      .nil (Nat.le_refl _)⟩
  have hstart : (c.leaving (splitName c.pending).2).size ≤ c.size :=
    length_splitName c.pending
  have hexpression := phrase_expression (c.leaving (splitName c.pending).2)
  rw [argument]
  split
  · rename_i value rest hrest heq
    rw [heq] at hexpression
    have hvalue := hname.trans hexpression
    apply Outcome.Meets.weaken
    refine ((closing_arguments false rest).behind hvalue).map ?_
    intro args rest' hargs
    exact hvalue.closing hargs
  · rename_i fault heq
    rw [heq] at hexpression
    have hlater : Later c fault := Later.behind hname hexpression
    split
    · split
      · exact hlater
      · rename_i left hleft
        have hless : left.length ≤ c.size :=
          Nat.le_trans (length_skipArgument hleft) (length_splitName c.pending)
        apply Outcome.Meets.weaken
        have hleads : c.Leads ⟨left, c.finish, fault.nextId⟩ :=
          ⟨(suffix_skipArgument hleft).trans (suffix_splitName c.pending), rfl⟩
        refine (closing_arguments false ⟨left, c.finish, fault.nextId⟩).mono
          ?_ ?_
        · -- The calls of the dropped argument keep their numbers.
          intro args rest hargs
          refine ⟨hleads.trans hargs.leads, ?_,
            (Numbered.nil hlater.count).append hargs.numbered⟩
          intro depth
          have hdropped := skipArgument_of_some hleft depth
          rw [Nat.zero_add, skipArgument_splitName] at hdropped
          rw [hdropped]
          exact hargs.ends depth
        · intro later hfault
          exact hfault.further hleads hlater.count
    · exact hlater
termination_by 20 * c.size + 16
decreasing_by
  · omega
  · simp only [if_false]
    omega
  · simp only [if_false, Cursor.size] at *
    omega

end

end Barscript.Script

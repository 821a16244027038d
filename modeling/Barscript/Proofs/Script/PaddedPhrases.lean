import Barscript.Proofs.Script.DroppedLists

/-!
# Reading phrases with padding

One induction over the grammar: from a cursor and from one where the script is
padded, the same phrase is read, with the same number for each of its calls,
or the same fault is found (`padded_expression`).
-/

namespace Barscript.Script

/-! ## Primary expressions -/

section

variable {called : List Spelling → Prop} {levels : List Bool}
  {c c' : Cursor} {token token' : Token} {pending pending' : List Token}

/-- A constant, or no expression. -/
theorem agrees_constant (hid : c'.nextId = c.nextId)
    (hpending : c.pending = token :: pending)
    (hpending' : c'.pending = token' :: pending')
    (hspelling : token'.spelling = token.spelling)
    (hrest : (c.leaving pending).Aligned
      (PaddedFrom called levels token.spelling) (c'.leaving pending'))
    (hname : token.isName ≠ true) (hgroup : token.kind ≠ .leftParen) :
    (primary c).Agrees Eq (Cursor.Aligned (Padded called levels))
      (primary c') := by
  have hkind : token'.kind = token.kind := congrArg Prod.fst hspelling
  have hvalue : token'.value = token.value := congrArg Prod.snd hspelling
  have hname' : token'.isName ≠ true := by
    unfold Token.isName at hname ⊢
    rwa [hkind, hvalue]
  rw [primary_cons hpending, primary_cons hpending', hkind, hvalue,
    if_neg hgroup, if_neg hgroup, if_neg hname, if_neg hname']
  split_ifs with hnumber hstring hboolean
  · cases Decimal.readText? token.value with
    | none => exact agrees_fault hid _
    | some x => exact ⟨rfl, hrest.behindFirm (by rw [hnumber]; rfl)⟩
  · exact ⟨rfl, hrest.behindFirm (by rw [hstring]; rfl)⟩
  · exact ⟨rfl, hrest.behindFirm (by rw [hboolean]; rfl)⟩
  · exact agrees_fault hid _

/-- Behind the bracket of an index. -/
theorem aligned_index
    (h : (c.leaving pending).Aligned (PaddedBehind called levels)
      (c'.leaving pending'))
    (hindex : firstKind pending = .leftBracket) :
    (c.leaving pending.tail).Aligned (Padded called (false :: levels))
      (c'.leaving pending'.tail) := by
  obtain ⟨bracket, hkind, hpending⟩ := pending_of_firstKind hindex (by decide)
  have hne : firstKind pending ≠ .leftParen := by rw [hindex]; decide
  have hpadded := h.padded hne
  obtain ⟨bracket', rest', hpending', _, hrest⟩ :=
    hpadded.cons hpending (by rw [hkind]; decide) (by rw [hkind]; decide)
      (by rw [hkind]; decide)
  have hrest : (c.leaving pending.tail).Aligned _ (c'.leaving rest') := hrest
  have hpending' : pending' = bracket' :: rest' := hpending'
  rw [hpending']
  exact hrest.imp fun _ _ hrest => hrest.index hkind

/-- A call, a name with an index or a name. -/
theorem agrees_name (hpending : c.pending = token :: pending)
    (hpending' : c'.pending = token' :: pending')
    (hspelling : token'.spelling = token.spelling)
    (hrest : (c.leaving pending).Aligned (PaddedBehind called levels)
      (c'.leaving pending'))
    (hname : token.isName = true)
    (hargs : (callArguments (c.leaving pending)).Agrees Eq
      (Cursor.Aligned (Padded called levels))
      (callArguments (c'.leaving pending')))
    (hoffset : firstKind pending = .leftBracket →
      (expression (c.leaving pending.tail)).Agrees Eq
        (Cursor.Aligned (Padded called (false :: levels)))
        (expression (c'.leaving pending'.tail))) :
    (primary c).Agrees Eq (Cursor.Aligned (Padded called levels))
      (primary c') := by
  have hkind : token'.kind = token.kind := congrArg Prod.fst hspelling
  have hvalue : token'.value = token.value := congrArg Prod.snd hspelling
  have hname' : token'.isName = true := by
    unfold Token.isName at hname ⊢
    rwa [hkind, hvalue]
  have hindexable : token'.isIndexable = token.isIndexable := by
    unfold Token.isIndexable
    rw [hkind]
  have hopen : firstKind pending' = .leftParen ↔
      firstKind pending = .leftParen :=
    iff_of_eq (hrest.seen (· = .leftParen) (by simp) (by simp))
  have hbracket : firstKind pending' = .leftBracket ↔
      firstKind pending = .leftBracket :=
    iff_of_eq (hrest.seen (· = .leftBracket) (by simp) (by simp))
  rw [primary_name hpending hname, primary_name hpending' hname', hvalue,
    hindexable]
  simp only [hopen, hbracket]
  split_ifs with hcall hindex
  · refine hargs.bind ?_
    rintro args rest hrest _ rest' hrest' rfl ⟨hahead, hid⟩
    refine ⟨?_, hahead, congrArg (· + 1) hid⟩
    rw [hid]
  · refine (hoffset hindex.2).bind ?_
    rintro offset rest hrest _ rest' hrest' rfl haligned
    apply Outcome.Agrees.weaken
    exact (agrees_unindex haligned "']'").map fun _ _ _ => rfl
  · exact ⟨rfl, hrest.padded hcall⟩

end

/-! ## Calls and their arguments -/

section

variable {called : List Spelling → Prop} {levels : List Bool}
  {c c' : Cursor}

theorem callArguments_opened {token : Token} {pending : List Token}
    (hpending : c.pending = token :: pending)
    (hkind : token.kind = .leftParen) :
    callArguments c = (arguments true (c.leaving pending)).weaken
      (Cursor.size_leaving_le hpending) := by
  rw [callArguments,
    expect_some ((eat?_cons hpending .leftParen).trans (if_pos hkind))]
  rfl

theorem callArguments_unopened (h : firstKind c.pending ≠ .leftParen) :
    callArguments c = .failed (c.fault (.expected "'('")) := by
  rw [callArguments, expect_none (eat?_none h)]
  rfl

/-- Behind the parenthesis of a call. -/
theorem Cursor.Aligned.opened (h : c.Aligned (PaddedBehind called levels) c')
    {token : Token} {pending : List Token}
    (hpending : c.pending = token :: pending)
    (hkind : token.kind = .leftParen) :
    ∃ b token' pending', c'.pending = token' :: pending' ∧
      token'.kind = .leftParen ∧
      (c.leaving pending).Aligned (PaddedSlot called (b :: levels))
        (c'.leaving pending') := by
  have hahead := h.ahead
  rw [ahead_pending hpending] at hahead
  generalize hahead' : c'.ahead = A' at hahead
  cases hahead with
  | plain hne => exact absurd hkind hne
  | @opening b _ _ _ _ args =>
      obtain ⟨token', pending', hpending', hspelling, haligned⟩ :=
        aligned_leaving h.nextId hahead' args
      exact ⟨b, token', pending', hpending',
        (congrArg Prod.fst hspelling).trans hkind, haligned⟩

theorem IsNamed.firstKind {pending : List Token} (h : IsNamed pending) :
    Script.firstKind pending = .identifier ∨
      Script.firstKind pending = .keyword := by
  obtain ⟨word, sign, rest, rfl⟩ := h.tokens
  exact h.1

theorem Cursor.Aligned.isNamed (h : c.Aligned (Padded called levels) c') :
    IsNamed c'.pending ↔ IsNamed c.pending := by
  have hseen := iff_of_eq (h.behind.seen
    (fun kind => kind = .identifier ∨ kind = .keyword) (by simp) (by simp))
  by_cases hword : firstKind c.pending = .identifier ∨
      firstKind c.pending = .keyword
  · have hclass : (firstKind c.pending).isWord = true := by
      rcases hword with hword | hword <;> rw [hword] <;> rfl
    obtain ⟨token, pending, hpending⟩ := cons_of_firstKind
      (ne_of_apply_ne TokenKind.isWord (by rw [hclass]; decide))
    rw [hpending] at hclass
    obtain ⟨token', pending', hpending', hspelling, hrest⟩ :=
      h.consWord hpending hclass
    have hkind : token'.kind = token.kind := congrArg Prod.fst hspelling
    have hsign : firstKind pending' = .assign ↔ firstKind pending = .assign :=
      iff_of_eq (hrest.seen (· = .assign) (by simp) (by simp))
    rw [hpending, hpending', isNamed_iff, isNamed_iff, hkind, hsign]
  · exact ⟨fun hnamed => absurd (hseen.mp hnamed.firstKind) hword,
      fun hnamed => absurd hnamed.firstKind hword⟩

/-- The name of an argument is read the same. -/
theorem Cursor.Aligned.atValue (h : c.Aligned (Padded called levels) c') :
    (splitName c'.pending).1 = (splitName c.pending).1 ∧
      c.atValue.Aligned (Padded called levels) c'.atValue := by
  have hiff := h.isNamed
  unfold Cursor.atValue
  by_cases hname : IsNamed c.pending
  · have hname' := hiff.mpr hname
    obtain ⟨word, sign, pending, hpending⟩ := hname.tokens
    rw [hpending] at hname
    obtain ⟨word', rest', hpending', hspelling, hrest⟩ :=
      h.consWord hpending (by rcases hname.1 with h | h <;> rw [h] <;> rfl)
    -- Behind the name stands the sign, which opens no call.
    have hsign : sign.kind = .assign := hname.2
    have hsigned := hrest.padded
      (show sign.kind ≠ .leftParen by rw [hsign]; decide)
    obtain ⟨sign', pending', hrest', hsign', haligned⟩ :=
      hsigned.consFirm rfl (by rw [hsign]; rfl)
    have hrest' : rest' = sign' :: pending' := hrest'
    rw [hrest'] at hpending'
    rw [hpending'] at hname'
    rw [hpending, hpending', splitName_named hname, splitName_named hname']
    exact ⟨congrArg (fun s : Spelling => some s.2) hspelling, haligned⟩
  · rw [splitName_plain hname, splitName_plain fun h => hname (hiff.mp h)]
    exact ⟨rfl, h⟩

/-- The arguments end, behind a list if one was put there. -/
theorem agrees_closed {b : Bool}
    (h : c.Aligned (Padded called (b :: levels)) c')
    (hclose : firstKind c.skipNewlines.pending = .rightParen) :
    (arguments false c).Agrees Eq (Cursor.Aligned (Padded called levels))
      (arguments false c') := by
  have hahead := h.ahead.behindBreaks
  rw [firstKind_eq, ahead_skipNewlines] at hclose
  cases hc : pastBreaks c.ahead with
  | nil =>
      rw [hc] at hclose
      cases hclose
  | cons s A =>
      rw [hc] at hahead hclose
      have hs : s.1 = .rightParen := hclose
      obtain ⟨rest, _, hdone, hrest, hid⟩ := arguments_end hs hc false
      obtain ⟨Z, B, C, hsplit, hZ, hB, hpadded⟩ := hahead.close_inv hs
      have hpadded : Padded called levels A C := hpadded
      rcases hZ with rfl | ⟨_, hZ⟩
      · have hB' : pastBreaks c'.ahead = s :: C := by
          rw [← hB, ← List.nil_append B, ← hsplit]
          exact (pastBreaks_eq (headKind_pastBreaks _)).symm
        obtain ⟨rest', _, hdone', hrest', hid'⟩ := arguments_end hs hB' false
        rw [hdone, hdone']
        exact ⟨rfl, by rw [hrest, hrest']; exact hpadded,
          hid'.trans (h.nextId.trans hid.symm)⟩
      · cases hZ with
        | @separated Z Z' L m hZ hZ' hL =>
            have hcomma : pastBreaks c'.ahead =
                (.comma, m) :: (Z' ++ (L ++ B)) := by
              rw [← pastBreaks_eq (headKind_pastBreaks c'.ahead), hsplit,
                pastBreaks_behind hZ, List.cons_append, List.append_assoc]
            obtain ⟨d, hless, hnext, hd, hid₁⟩ := arguments_comma rfl hcomma
            have hend : endOf 0 B = some (s :: C) := by
              rw [← endOf_pastBreaks, hB]
              exact endOf_end (Or.inl hs)
            obtain ⟨e, hle, hlist, he, hid₂⟩ := arguments_list hZ' hL hd hend
            have hlast : pastBreaks e.ahead = s :: C := by
              rw [he]
              exact pastBreaks_cons (by rw [hs]; decide) C
            obtain ⟨rest', _, hdone', hrest', hid'⟩ :=
              arguments_end hs hlast false
            rw [hdone, hnext, hlist, hdone']
            exact ⟨rfl, by rw [hrest, hrest']; exact hpadded,
              (((hid'.trans hid₂).trans hid₁).trans h.nextId).trans hid.symm⟩

theorem Cursor.Aligned.ends (h : c.Aligned (Padded called levels) c')
    (hline : firstKind c.pending ≠ .newline)
    (hline' : firstKind c'.pending ≠ .newline) :
    firstKind c'.pending = .rightParen ∨ firstKind c'.pending = .comma ↔
      firstKind c.pending = .rightParen ∨ firstKind c.pending = .comma := by
  rw [firstKind_eq] at hline hline' ⊢
  rw [firstKind_eq]
  exact h.ahead.ends hline hline'

end

/-! ## The induction -/

variable {called : List Spelling → Prop}

mutual

/-- **A phrase is read the same in a padded script.** -/
theorem padded_expression {levels : List Bool} (c c' : Cursor)
    (h : c.Aligned (Padded called levels) c') :
    (expression c).Agrees Eq (Cursor.Aligned (Padded called levels))
      (expression c') := by
  rw [expression, expression]
  refine (padded_chain .disjunction c c' h).bind ?_
  rintro condition rest hrest _ rest' hrest' rfl haligned
  cases heat : rest.eat? .question with
  | none =>
      rw [haligned.uneaten rfl heat]
      exact ⟨rfl, haligned⟩
  | some behind =>
      obtain ⟨behind', heat', haligned₁⟩ := haligned.eaten rfl heat
      obtain ⟨rest₁, hrest₁⟩ := behind
      obtain ⟨rest₁', hrest₁'⟩ := behind'
      rw [heat']
      dsimp only
      refine (padded_expression rest₁ rest₁' haligned₁).bind ?_
      rintro whenTrue rest₂ hrest₂ _ rest₂' hrest₂' rfl haligned₂
      refine (agrees_expect haligned₂ rfl "':'").bind ?_
      rintro _ rest₃ hrest₃ _ rest₃' hrest₃' _ haligned₃
      refine (padded_expression rest₃ rest₃' haligned₃).bind ?_
      rintro whenFalse rest₄ hrest₄ _ rest₄' hrest₄' rfl haligned₄
      exact ⟨rfl, haligned₄⟩
termination_by 20 * c.size + 14
decreasing_by
  · simp only [Level.height]
    omega
  · omega
  · omega

theorem padded_chain {levels : List Bool} (level : Level) (c c' : Cursor)
    (h : c.Aligned (Padded called levels) c') :
    (chain level c).Agrees Eq (Cursor.Aligned (Padded called levels))
      (chain level c') := by
  rw [chain, chain]
  refine (padded_operand level c c' h).bind ?_
  rintro left rest hrest _ rest' hrest' rfl haligned
  exact (padded_chainRest level left rest rest' haligned).weaken
termination_by 20 * c.size + 2 * level.height + 3

theorem padded_operand {levels : List Bool} (level : Level) (c c' : Cursor)
    (h : c.Aligned (Padded called levels) c') :
    (operand level c).Agrees Eq (Cursor.Aligned (Padded called levels))
      (operand level c') := by
  rw [operand, operand]
  cases hnext : level.tighter? with
  | none => exact padded_unary c c' h
  | some next => exact padded_chain next c c' h
termination_by 20 * c.size + 2 * level.height + 2
decreasing_by
  · omega
  · have hheight := Level.height_tighter? hnext
    omega

theorem padded_chainRest {levels : List Bool} (level : Level) (left : Expr)
    (c c' : Cursor) (h : c.Aligned (Padded called levels) c') :
    (chainRest level left c).Agrees Eq
      (Cursor.Aligned (Padded called levels)) (chainRest level left c') := by
  have hseen := h.behind.seen level.operator? (by cases level <;> rfl)
    (by cases level <;> rfl)
  cases hop : level.operator? (firstKind c.pending) with
  | none =>
      rw [chainRest_plain hop, chainRest_plain (hseen.trans hop)]
      exact ⟨rfl, h⟩
  | some op =>
      have hfirm := firm_of_operator? hop
      obtain ⟨token, pending, hpending⟩ := cons_of_firstKind fun hend => by
        rw [hend] at hop
        cases level <;> cases hop
      rw [hpending] at hop hfirm
      have hsize := Cursor.size_leaving_lt hpending
      obtain ⟨token', pending', hpending', hkind, hrest⟩ :=
        h.consFirm hpending hfirm
      have hop' : level.operator? token'.kind = some op := by
        rw [hkind]
        exact hop
      rw [chainRest_operator hpending hop, chainRest_operator hpending' hop']
      refine (padded_operand level (c.leaving pending) _ hrest).bind ?_
      rintro right rest hrest _ rest' hrest' rfl haligned
      exact (padded_chainRest level (.binary op left right) rest rest'
        haligned).weaken
termination_by 20 * c.size + 1
decreasing_by
  · have hheight := level.height_le
    omega
  · omega

theorem padded_unary {levels : List Bool} (c c' : Cursor)
    (h : c.Aligned (Padded called levels) c') :
    (unary c).Agrees Eq (Cursor.Aligned (Padded called levels))
      (unary c') := by
  have hseen := h.behind.seen unaryOperator? rfl rfl
  cases hop : unaryOperator? (firstKind c.pending) with
  | none =>
      rw [unary_plain hop, unary_plain (hseen.trans hop)]
      exact padded_primary c c' h
  | some op =>
      have hfirm := firm_of_unaryOperator? hop
      obtain ⟨token, pending, hpending⟩ := cons_of_firstKind fun hend => by
        rw [hend] at hop
        cases hop
      rw [hpending] at hop hfirm
      have hsize := Cursor.size_leaving_lt hpending
      obtain ⟨token', pending', hpending', hkind, hrest⟩ :=
        h.consFirm hpending hfirm
      have hop' : unaryOperator? token'.kind = some op := by
        rw [hkind]
        exact hop
      rw [unary_operator hpending hop, unary_operator hpending' hop']
      apply Outcome.Agrees.weaken
      refine (padded_unary (c.leaving pending) _ hrest).map ?_
      rintro inner _ rfl
      rfl
termination_by 20 * c.size + 1

theorem padded_primary {levels : List Bool} (c c' : Cursor)
    (h : c.Aligned (Padded called levels) c') :
    (primary c).Agrees Eq (Cursor.Aligned (Padded called levels))
      (primary c') := by
  have hseen := h.behind.seen TokenKind.startsOperand rfl rfl
  cases hstart : (firstKind c.pending).startsOperand with
  | false =>
      rw [primary_stray hstart, primary_stray (hseen.trans hstart)]
      exact agrees_fault h.nextId _
  | true =>
      obtain ⟨token, pending, hpending⟩ := cons_of_firstKind fun hend => by
        rw [hend] at hstart
        cases hstart
      rw [hpending] at hstart
      have hstart : token.kind.startsOperand = true := hstart
      have hfirst : ∀ kind : TokenKind, kind.startsOperand = false →
          token.kind ≠ kind := fun kind hkind =>
        ne_of_apply_ne TokenKind.startsOperand (by rw [hstart, hkind]; decide)
      have hsize := Cursor.size_leaving_lt hpending
      obtain ⟨token', pending', hpending', hspelling, hrest⟩ :=
        h.cons hpending (hfirst _ rfl) (hfirst _ rfl) (hfirst _ rfl)
      by_cases hname : token.isName = true
      · have hword := hrest.behindToken (isMark_of_isName hname)
        refine agrees_name hpending hpending' hspelling hword hname
          (padded_callArguments _ _ hword) fun hindex => ?_
        have htail := Cursor.size_leaving_tail_lt hpending
        exact padded_expression (c.leaving pending.tail) _
          (aligned_index hword hindex)
      by_cases hgroup : token.kind = .leftParen
      · have hskip := (c.leaving pending).size_skipNewlines
        have hkind : token'.kind = token.kind := congrArg Prod.fst hspelling
        rw [primary_group hpending hgroup,
          primary_group hpending' (hkind.trans hgroup)]
        refine (padded_expression (c.leaving pending).skipNewlines _
          (hrest.group hgroup)).bind ?_
        rintro inner rest hrest _ rest' hrest' rfl haligned
        apply Outcome.Agrees.weaken
        exact (agrees_close haligned "')'").map fun _ _ _ => rfl
      exact agrees_constant h.nextId hpending hpending' hspelling hrest hname
        hgroup
termination_by 20 * c.size + 0

theorem padded_callArguments {levels : List Bool} (c c' : Cursor)
    (h : c.Aligned (PaddedBehind called levels) c') :
    (callArguments c).Agrees Eq (Cursor.Aligned (Padded called levels))
      (callArguments c') := by
  by_cases hopen : firstKind c.pending = .leftParen
  · obtain ⟨token, hkind, hpending⟩ := pending_of_firstKind hopen (by decide)
    have hsize := Cursor.size_leaving_lt hpending
    obtain ⟨b, token', pending', hpending', hkind', haligned⟩ :=
      h.opened hpending hkind
    rw [callArguments_opened hpending hkind,
      callArguments_opened hpending' hkind']
    exact (padded_slots _ _ haligned).weaken
  · have hopen' : firstKind c'.pending ≠ .leftParen := fun hkind =>
      hopen ((iff_of_eq (h.seen (· = .leftParen) (by simp) (by simp))).mp hkind)
    rw [callArguments_unopened hopen, callArguments_unopened hopen']
    exact agrees_fault h.nextId _
termination_by 20 * c.size + 0

/-- The arguments behind an opening parenthesis or behind a comma. -/
theorem padded_slots {b : Bool} {levels : List Bool} (c c' : Cursor)
    (h : c.Aligned (PaddedSlot called (b :: levels)) c') :
    (arguments true c).Agrees Eq (Cursor.Aligned (Padded called levels))
      (arguments true c') := by
  have hskip := c.size_skipNewlines
  obtain ⟨d, hle, hslot, haligned⟩ := arguments_slot h
  rw [hslot]
  apply Outcome.Agrees.weakenRight
  have hends := haligned.ends (firstKind_skipNewlines c)
    (firstKind_skipNewlines d)
  by_cases hend : firstKind c.skipNewlines.pending = .rightParen ∨
      firstKind c.skipNewlines.pending = .comma
  · obtain ⟨_, hempty⟩ := arguments_empty rfl hend
    obtain ⟨_, hempty'⟩ := arguments_empty rfl (hends.mpr hend)
    rw [hempty, hempty']
    exact (padded_further c.skipNewlines d.skipNewlines haligned).weaken
  · have hend' := fun h => hend (hends.mp h)
    rw [arguments_first (eat?_none fun h => hend (Or.inl h)),
      arguments_first (eat?_none fun h => hend' (Or.inl h))]
    exact (padded_argument c.skipNewlines d.skipNewlines haligned).weaken
termination_by 20 * c.size + 17

/-- The arguments behind an argument. -/
theorem padded_further {b : Bool} {levels : List Bool} (c c' : Cursor)
    (h : c.Aligned (Padded called (b :: levels)) c') :
    (arguments false c).Agrees Eq (Cursor.Aligned (Padded called levels))
      (arguments false c') := by
  have hskip := h.skipNewlines
  have hends := hskip.ends (firstKind_skipNewlines c)
    (firstKind_skipNewlines c')
  by_cases hclose : firstKind c.skipNewlines.pending = .rightParen
  · exact agrees_closed h hclose
  by_cases hcomma : firstKind c.skipNewlines.pending = .comma
  · obtain ⟨token, hkind, hpending⟩ := pending_of_firstKind hcomma (by decide)
    have hahead := hskip.ahead
    have hfirst := ahead_pending hpending
    rw [hfirst] at hahead
    rw [ahead_skipNewlines] at hahead hfirst
    obtain ⟨s', B', hkind', hB', hslot⟩ := hahead.comma_inv hkind
    rw [pastBreaks_eq (headKind_pastBreaks _)] at hB'
    obtain ⟨d, hless, hnext, hd, hid⟩ := arguments_comma hkind hfirst
    obtain ⟨d', _, hnext', hd', hid'⟩ := arguments_comma hkind' hB'
    have haligned : d.Aligned (PaddedSlot called (b :: levels)) d' :=
      ⟨by rw [hd, hd']; exact hslot, hid'.trans (h.nextId.trans hid.symm)⟩
    rw [hnext, hnext']
    exact (padded_slots d d' haligned).weaken
  · have hend : ¬ (firstKind c.skipNewlines.pending = .rightParen ∨
        firstKind c.skipNewlines.pending = .comma) :=
      not_or.mpr ⟨hclose, hcomma⟩
    have hend' := fun h => hend (hends.mp h)
    rw [arguments_unmarked (eat?_none hclose) (eat?_none hcomma),
      arguments_unmarked (eat?_none fun h => hend' (Or.inl h))
        (eat?_none fun h => hend' (Or.inr h))]
    exact agrees_fault hskip.nextId _
termination_by 20 * c.size + 15

theorem padded_argument {b : Bool} {levels : List Bool} (c c' : Cursor)
    (h : c.Aligned (Padded called (b :: levels)) c') :
    (argument c).Agrees Eq (Cursor.Aligned (Padded called levels))
      (argument c') := by
  have hstart : c.atValue.size ≤ c.size := length_splitName c.pending
  obtain ⟨hname, haligned⟩ := h.atValue
  have hexpression := padded_expression c.atValue c'.atValue haligned
  have hskipped := haligned.ahead.skipped 0
  rw [endOf_ahead, endOf_ahead] at hskipped
  cases heq : expression c.atValue with
  | done value rest hrest =>
      cases heq' : expression c'.atValue with
      | failed fault' =>
          rw [heq, heq'] at hexpression
          exact absurd hexpression id
      | done value' rest' hrest' =>
          rw [heq, heq'] at hexpression
          obtain ⟨rfl, hbehind⟩ := hexpression
          obtain ⟨_, hdone⟩ := argument_done heq
          obtain ⟨_, hdone'⟩ := argument_done heq'
          rw [hdone, hdone', hname]
          apply Outcome.Agrees.weaken
          refine (padded_further rest rest' hbehind).map ?_
          rintro args _ rfl
          rfl
  | failed fault =>
      cases heq' : expression c'.atValue with
      | done value' rest' hrest' =>
          rw [heq, heq'] at hexpression
          exact absurd hexpression id
      | failed fault' =>
          rw [heq, heq'] at hexpression
          obtain ⟨hcomplaint, hcount⟩ := hexpression
          by_cases hunexpected : fault.complaint = .unexpected
          · have hunexpected' := hcomplaint.trans hunexpected
            cases hleft : skipArgument 0 c.atValue.pending with
            | none =>
                rw [hleft] at hskipped
                cases hleft' : skipArgument 0 c'.atValue.pending with
                | some left' =>
                    rw [hleft'] at hskipped
                    cases hskipped
                | none =>
                    rw [argument_failed heq (Or.inr hleft),
                      argument_failed heq' (Or.inr hleft')]
                    exact ⟨hcomplaint, hcount⟩
            | some left =>
                rw [hleft] at hskipped
                cases hleft' : skipArgument 0 c'.atValue.pending with
                | none =>
                    rw [hleft'] at hskipped
                    cases hskipped
                | some left' =>
                    -- The argument is dropped in both scripts.
                    rw [hleft'] at hskipped
                    obtain ⟨_, hdrop⟩ :=
                      argument_dropped heq hunexpected hleft
                    obtain ⟨_, hdrop'⟩ :=
                      argument_dropped heq' hunexpected' hleft'
                    rw [hdrop, hdrop']
                    apply Outcome.Agrees.weaken
                    cases hskipped with
                    | some hrest =>
                        exact padded_further ⟨left, c.finish, fault.nextId⟩
                          ⟨left', c'.finish, fault'.nextId⟩ ⟨hrest, hcount⟩
          · have hunexpected' : fault'.complaint ≠ .unexpected := by
              rwa [hcomplaint]
            rw [argument_failed heq (Or.inl hunexpected),
              argument_failed heq' (Or.inl hunexpected')]
            exact ⟨hcomplaint, hcount⟩
termination_by 20 * c.size + 16
decreasing_by
  · omega
  · omega
  · have hless : left.length ≤ c.size :=
      Nat.le_trans (length_skipArgument hleft) hstart
    simp only [Cursor.size] at *
    omega

end

end Barscript.Script

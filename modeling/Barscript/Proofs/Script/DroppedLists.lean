import Barscript.Proofs.Script.Aligned
import Barscript.Proofs.Script.ArgumentEnd

/-!
# Lists are dropped

No expression starts with a bracket, so a list among the arguments of a call
is dropped before anything in it is read and no call is counted
(`argument_list`). An empty argument is dropped the same way
(`arguments_empty`). So a list in front of an argument is nothing
(`arguments_slot`).
-/

namespace Barscript.Script

section

variable {c : Cursor}

theorem primary_stray (h : (firstKind c.pending).startsOperand = false) :
    primary c = .failed (c.fault .unexpected) := by
  cases hpending : c.pending with
  | nil => exact primary_nil hpending
  | cons token pending =>
      rw [hpending] at h
      have h : token.kind.startsOperand = false := h
      have hkind : ∀ kind : TokenKind, kind.startsOperand = true →
          token.kind ≠ kind := fun kind hkind =>
        ne_of_apply_ne TokenKind.startsOperand (by rw [h, hkind]; decide)
      have hname : ¬ token.isName = true := by
        intro hname
        rw [startsOperand_of_isName hname] at h
        cases h
      rw [primary_cons hpending, if_neg (hkind _ rfl), if_neg (hkind _ rfl),
        if_neg (hkind _ rfl), if_neg (hkind _ rfl), if_neg hname]

theorem chain_stray (h : (firstKind c.pending).startsOperand = false)
    (level : Level) : chain level c = .failed (c.fault .unexpected) := by
  have hoperand : operand level c = .failed (c.fault .unexpected) := by
    rw [operand]
    split
    · rename_i next hnext
      have hheight := Level.height_tighter? hnext
      exact chain_stray h next
    · have hplain : unaryOperator? (firstKind c.pending) = none := by
        cases hkind : firstKind c.pending <;> rw [hkind] at h <;>
          first | rfl | cases h
      rw [unary_plain hplain, primary_stray h]
  rw [chain, hoperand]
  rfl
termination_by level.height

/-- No expression starts here. -/
theorem expression_stray (h : (firstKind c.pending).startsOperand = false) :
    expression c = .failed (c.fault .unexpected) := by
  rw [expression, chain_stray h]
  rfl

/-- The list itself, behind its name. -/
theorem atValue_list {L A : List Spelling} (hL : ListArgument L)
    (h : c.ahead = L ++ A) :
    firstKind c.atValue.pending = .leftBracket ∧
      endOf 0 c.atValue.ahead = endOf 0 A := by
  cases hL with
  | plain hL =>
      have hL' := hL
      obtain ⟨l, r, B, _, rfl⟩ := hL'
      obtain ⟨token, pending, hpending, hspelling, _⟩ := ahead_cons h
      have hkind : token.kind = .leftBracket := congrArg Prod.fst hspelling
      have hplain : ¬ IsNamed c.pending := by
        rw [hpending, isNamed_iff, hkind]
        rintro ⟨hword | hword, _⟩ <;> cases hword
      rw [atValue_plain hplain, h, endOf_bracketList hL, hpending]
      exact ⟨hkind, rfl⟩
  | named hword hL =>
      have hL' := hL
      obtain ⟨l, r, B, _, rfl⟩ := hL'
      obtain ⟨word, rest, hpending, rfl, hrest⟩ := ahead_cons h
      obtain ⟨sign, pending, rfl, hsign, hahead⟩ := ahead_cons hrest
      have hnamed : IsNamed (word :: sign :: pending) :=
        ⟨hword, congrArg Prod.fst hsign⟩
      have hvalue : c.atValue = c.leaving pending := by
        unfold Cursor.atValue
        rw [hpending, splitName_named hnamed]
      have hahead : (c.leaving pending).ahead = _ := hahead
      rw [hvalue, firstKind_eq, hahead]
      exact ⟨rfl, endOf_bracketList hL 0 A⟩

/-- **A list is dropped** before anything in it is read. -/
theorem argument_list {L A left : List Spelling} (hL : ListArgument L)
    (h : c.ahead = L ++ A) (hleft : endOf 0 A = some left) :
    ∃ d hle, argument c = (arguments false d).weaken hle ∧ d.ahead = left ∧
      d.nextId = c.nextId := by
  obtain ⟨hkind, hend⟩ := atValue_list hL h
  rw [hleft, endOf_ahead, Option.map_eq_some_iff] at hend
  obtain ⟨pending, hskip, hahead⟩ := hend
  obtain ⟨hle, hdrop⟩ := argument_dropped
    (expression_stray (by rw [hkind]; rfl)) rfl hskip
  exact ⟨_, hle, hdrop, hahead, rfl⟩

theorem arguments_end {s : Spelling} {A : List Spelling}
    (hs : s.1 = .rightParen) (h : pastBreaks c.ahead = s :: A)
    (first : Bool) :
    ∃ rest hless, arguments first c = .done [] rest hless ∧
      rest.ahead = A ∧ rest.nextId = c.nextId := by
  rw [← ahead_skipNewlines] at h
  obtain ⟨token, pending, hpending, rfl, hahead⟩ := ahead_cons h
  exact ⟨_, _, arguments_closed first
    ((eat?_cons hpending .rightParen).trans (if_pos hs)), hahead, rfl⟩

/-- Behind a comma the arguments go on as behind the opening parenthesis. -/
theorem arguments_comma {s : Spelling} {A : List Spelling}
    (hs : s.1 = .comma) (h : pastBreaks c.ahead = s :: A) :
    ∃ (d : Cursor) (hless : d.size < c.size),
      arguments false c = (arguments true d).weaken (Nat.le_of_lt hless) ∧
        d.ahead = A ∧ d.nextId = c.nextId := by
  rw [← ahead_skipNewlines] at h
  obtain ⟨token, pending, hpending, rfl, hahead⟩ := ahead_cons h
  have hkind : token.kind = .comma := hs
  have hopen : c.skipNewlines.eat? .rightParen = none :=
    (eat?_cons hpending _).trans (if_neg (by rw [hkind]; decide))
  have hcomma := (eat?_cons hpending .comma).trans (if_pos hkind)
  refine ⟨c.skipNewlines.leaving pending, ?_, ?_, hahead, rfl⟩
  · exact Nat.lt_of_lt_of_le (Cursor.size_leaving_lt hpending)
      c.size_skipNewlines
  cases hclose : (c.skipNewlines.leaving pending).skipNewlines.eat?
      .rightParen with
  | some behind =>
      obtain ⟨_, htrailing⟩ := arguments_trailing hopen hcomma hclose
      rw [htrailing, arguments_closed true hclose]
      rfl
  | none =>
      obtain ⟨_, hnext⟩ := arguments_next hopen hcomma hclose
      rw [hnext, arguments_first hclose, weaken_weaken]

/-- An empty argument is no argument. -/
theorem arguments_empty {d : Cursor} (hd : c.skipNewlines = d)
    (h : firstKind d.pending = .rightParen ∨ firstKind d.pending = .comma) :
    ∃ hle, arguments true c = (arguments false d).weaken hle := by
  subst hd
  have hsame : c.skipNewlines.skipNewlines = c.skipNewlines :=
    skipNewlines_eq (firstKind_skipNewlines c)
  refine ⟨c.size_skipNewlines, ?_⟩
  rcases h with h | h
  · obtain ⟨token, hkind, hpending⟩ := pending_of_firstKind h (by decide)
    have hpending' := hpending
    rw [← hsame] at hpending'
    rw [arguments_closed true ((eat?_cons hpending _).trans (if_pos hkind)),
      arguments_closed false ((eat?_cons hpending' _).trans (if_pos hkind))]
    simp only [hsame, Outcome.weaken_done]
  · -- A comma starts no expression, and ends the argument.
    obtain ⟨token, hkind, hpending⟩ := pending_of_firstKind h (by decide)
    have hplain : ¬ IsNamed c.skipNewlines.pending := by
      rw [hpending, isNamed_iff, hkind]
      rintro ⟨hword | hword, _⟩ <;> cases hword
    have hvalue := atValue_plain hplain
    have hstray : expression c.skipNewlines.atValue =
        .failed (c.skipNewlines.atValue.fault .unexpected) :=
      expression_stray (by rw [hvalue, h]; rfl)
    have hend : skipArgument 0 c.skipNewlines.atValue.pending =
        some c.skipNewlines.pending := by
      rw [hvalue, hpending]
      exact skipArgument_end (Or.inr hkind)
    obtain ⟨_, hdrop⟩ := argument_dropped hstray rfl hend
    rw [arguments_first (eat?_none (by rw [h]; decide)), hdrop, weaken_weaken]
    rfl

theorem firstKind_list {L A : List Spelling} (hL : ListArgument L) :
    (headKind (L ++ A)).startsOperand = true ∨
      headKind (L ++ A) = .leftBracket := by
  cases hL with
  | plain hL =>
      obtain ⟨_, _, _, _, rfl⟩ := hL
      exact Or.inr rfl
  | @named word _ _ hword _ =>
      left
      show word.1.startsOperand = true
      rcases hword with hword | hword <;> rw [hword] <;> rfl

/-- The first argument is a list. -/
theorem arguments_list {Z L A left : List Spelling} (hZ : LineBreaks Z)
    (hL : ListArgument L) (h : c.ahead = Z ++ (L ++ A))
    (hleft : endOf 0 A = some left) :
    ∃ d hle, arguments true c = (arguments false d).weaken hle ∧
      d.ahead = left ∧ d.nextId = c.nextId := by
  have hfirst : ∀ kind : TokenKind, kind.startsOperand = false →
      kind ≠ .leftBracket → headKind (L ++ A) ≠ kind := by
    rintro kind hkind hne rfl
    rcases firstKind_list hL with hstart | hbracket
    · rw [hkind] at hstart
      cases hstart
    · exact hne hbracket
  have hahead : c.skipNewlines.ahead = L ++ A := by
    rw [ahead_skipNewlines, h, pastBreaks_append hZ]
    exact pastBreaks_eq (hfirst _ rfl (by decide))
  obtain ⟨d, hle, hargument, hd, hid⟩ := argument_list hL hahead hleft
  have hopen : c.skipNewlines.eat? .rightParen = none := by
    apply eat?_none
    rw [firstKind_eq, hahead]
    exact hfirst _ rfl (by decide)
  refine ⟨d, Nat.le_trans hle c.size_skipNewlines, ?_, hd, hid⟩
  rw [arguments_first hopen, hargument, weaken_weaken]

variable {called : List Spelling → Prop} {levels : List Bool} {c' : Cursor}

/-- **A list in front of an argument is nothing.** -/
theorem arguments_slot (h : c.Aligned (PaddedSlot called levels) c') :
    ∃ d hle, arguments true c' = (arguments true d).weaken hle ∧
      c.skipNewlines.Aligned (Padded called levels) d.skipNewlines := by
  obtain ⟨Z, B', hahead, hZ, hrest⟩ := h.ahead
  have haligned : ∀ d : Cursor, pastBreaks d.ahead = pastBreaks B' →
      d.nextId = c'.nextId →
        c.skipNewlines.Aligned (Padded called levels) d.skipNewlines := by
    intro d hd hid
    refine ⟨?_, hid.trans h.nextId⟩
    rw [ahead_skipNewlines, ahead_skipNewlines, hd]
    exact hrest
  rcases hZ with rfl | ⟨_, hZ⟩
  · exact ⟨c', Nat.le_refl _, (weaken_refl _).symm,
      haligned c' (by rw [hahead, List.nil_append]) rfl⟩
  cases hZ with
  | @separated _ _ _ m hZ hL hZ' =>
      simp only [List.append_assoc, List.cons_append, List.nil_append] at hahead
      obtain ⟨d, hle, hlist, hd, hid⟩ := arguments_list hZ hL hahead
        ((endOf_breaks hZ').trans (endOf_end (Or.inr rfl)))
      have hbehind : pastBreaks d.ahead = (.comma, m) :: B' := by
        rw [hd]
        exact pastBreaks_cons (by decide : TokenKind.comma ≠ .newline) B'
      obtain ⟨e, hless, hcomma, he, hid'⟩ := arguments_comma rfl hbehind
      refine ⟨e, Nat.le_trans (Nat.le_of_lt hless) hle, ?_,
        haligned e (by rw [he]) (hid'.trans hid)⟩
      rw [hlist, hcomma, weaken_weaken]
  | last hZ hL hclose =>
      rw [List.append_assoc] at hahead
      -- Behind the list the arguments end, or another list follows.
      have hend := (hrest.ends (headKind_pastBreaks _)
        (headKind_pastBreaks _)).mpr (Or.inl hclose)
      have hleft : endOf 0 B' = some (pastBreaks B') := by
        rw [← endOf_pastBreaks]
        cases hB' : pastBreaks B' with
        | nil =>
            rw [hB'] at hend
            rcases hend with hend | hend <;> cases hend
        | cons s C =>
            rw [hB'] at hend
            exact endOf_end hend
      obtain ⟨d, hle, hlist, hd, hid⟩ := arguments_list hZ hL hahead hleft
      rw [← hd, ← firstKind_eq] at hend
      have hline : firstKind d.pending ≠ .newline := by
        rcases hend with hend | hend <;> rw [hend] <;> decide
      obtain ⟨_, hempty⟩ := arguments_empty (skipNewlines_eq hline) hend
      refine ⟨d, hle, ?_, haligned d ?_ hid⟩
      · rw [hlist, hempty, weaken_weaken]
      · rw [hd]
        exact pastBreaks_eq (headKind_pastBreaks B')

end

end Barscript.Script

import Barscript.Proofs.Script.Phrase

/-!
# The arguments of a call, token by token

`argumentSlots` says where the arguments of a call begin without reading them:
behind the opening parenthesis and behind every comma outside of brackets.
Reading a call agrees with it (`slotsRead_callArguments`): in each slot either
an expression is read up to the end of the slot, or the slot is dropped,
because an operand is missing in it. Nothing else is passed over in silence.
-/

namespace Barscript.Script

/-! ## Slots -/

/-- The tokens from each argument on, behind the opening parenthesis. -/
def argumentSlots (pending : List Token) : List (List Token) :=
  match _h : behindNewlines pending with
  | [] => []
  | token :: rest =>
    if token.kind = .rightParen then []
    else (token :: rest) ::
      match _hs : skipArgument 0 (token :: rest) with
      | some (mark :: behind) =>
        if mark.kind = .comma then argumentSlots behind else []
      | _ => []
termination_by pending.length
decreasing_by
  have hnewlines := (List.dropWhile_suffix (l := pending) fun token =>
    token.kind = .newline).length_le
  have hskip := length_skipArgument _hs
  rw [← _h] at hskip
  simp only [List.length_cons, behindNewlines] at hskip
  omega

/-- The slots behind the end of an argument. -/
def slotsBehind : Option (List Token) → List (List Token)
  | some (mark :: behind) =>
    if mark.kind = .comma then argumentSlots behind else []
  | _ => []

theorem argumentSlots_cons {pending rest : List Token} {token : Token}
    (h : behindNewlines pending = token :: rest)
    (hkind : token.kind ≠ .rightParen) :
    argumentSlots pending =
      (token :: rest) :: slotsBehind (skipArgument 0 (token :: rest)) := by
  rw [argumentSlots]
  split
  · rename_i hnil
    rw [h] at hnil
    cases hnil
  · rename_i token' rest' hcons
    rw [h] at hcons
    cases hcons
    rw [if_neg hkind]
    congr 1
    split
    · rename_i mark behind hskip
      rw [hskip]
      rfl
    · rename_i hother
      cases hskip : skipArgument 0 (token :: rest) with
      | none => rfl
      | some left =>
          cases left with
          | nil => rfl
          | cons mark behind => exact absurd hskip (hother mark behind)

theorem argumentSlots_end {pending rest : List Token} {token : Token}
    (h : behindNewlines pending = token :: rest)
    (hkind : token.kind = .rightParen) : argumentSlots pending = [] := by
  rw [argumentSlots]
  split
  · rfl
  · rename_i token' rest' hcons
    rw [h] at hcons
    cases hcons
    rw [if_pos hkind]

/-! ## Reading the slots -/

/-- An expression is read in a slot up to its end, newlines aside. -/
def Complete (slot : List Token) (value : Expr) : Prop :=
  ∃ (c rest : Cursor) (h : rest.size < c.size),
    c.pending = (splitName slot).2 ∧ expression c = .done value rest h ∧
      skipArgument 0 slot = some (behindNewlines rest.pending)

/-- In a slot an operand is missing: where it has to stand is a token that no
expression starts with. -/
def OperandMissing (slot : List Token) : Prop :=
  ∃ (c : Cursor) (fault : Fault), c.pending = (splitName slot).2 ∧
    expression c = .failed fault ∧ fault.complaint = .unexpected

/-- The arguments that are read in some slots: those in which an operand is
missing give none. -/
inductive SlotsRead : List (List Token) → List (Argument Expr) → Prop where
  | nil : SlotsRead [] []
  | complete {slot : List Token} {value : Expr} (h : Complete slot value)
      {slots : List (List Token)} {args : List (Argument Expr)}
      (hrest : SlotsRead slots args) :
      SlotsRead (slot :: slots) (⟨(splitName slot).1, value⟩ :: args)
  | dropped {slot : List Token} (h : OperandMissing slot)
      {slots : List (List Token)} {args : List (Argument Expr)}
      (hrest : SlotsRead slots args) : SlotsRead (slot :: slots) args

theorem meets_of_size_zero {α : Type} {n : Nat} (x : Outcome α n)
    (hn : n = 0) (P : α → Cursor → Prop) : x.Meets P fun _ => True := by
  cases x with
  | done value rest h => exact absurd h (by omega)
  | failed fault => exact trivial

theorem skipArgument_mark {pending rest : List Token} {mark : Token}
    (h : behindNewlines pending = mark :: rest)
    (hkind : mark.kind = .rightParen ∨ mark.kind = .comma) :
    skipArgument 0 pending = some (behindNewlines pending) := by
  rw [← skipArgument_behindNewlines, h]
  exact skipArgument_end hkind

/-- What ends an argument is a mark with no newlines in front. -/
theorem behindNewlines_of_skipArgument {depth : Nat}
    {pending left : List Token} (h : skipArgument depth pending = some left) :
    behindNewlines left = left := by
  have hmark : ∀ {token : Token} {rest : List Token},
      token.kind = .rightParen ∨ token.kind = .comma →
        behindNewlines (token :: rest) = token :: rest := by
    intro token rest hkind
    rw [behindNewlines, List.dropWhile_cons, if_neg]
    rcases hkind with hkind | hkind <;> rw [hkind] <;> decide
  fun_induction skipArgument depth pending with
  | case1 => cases h
  | case2 _ _ _ _ ih => exact ih h
  | case3 _ _ _ _ ih => exact ih h
  | case4 token rest hkind =>
      cases h
      exact hmark (Or.inl hkind)
  | case5 _ _ _ _ _ ih => exact ih h
  | case6 => cases h
  | case7 _ _ _ _ _ ih => exact ih h
  | case8 token rest hkind =>
      cases h
      exact hmark (Or.inr hkind)
  | case9 _ _ _ _ _ ih => exact ih h
  | case10 _ _ _ _ _ _ _ _ ih => exact ih h

/-- Where no closing parenthesis stands, the first slot starts. -/
theorem slotsRead_first {c : Cursor}
    (hopen : c.skipNewlines.eat? .rightParen = none)
    (h : (argument c.skipNewlines).Meets
      (fun args _ => SlotsRead (c.skipNewlines.pending ::
        slotsBehind (skipArgument 0 c.skipNewlines.pending)) args)
      fun _ => True) :
    (argument c.skipNewlines).Meets
      (fun args _ => SlotsRead (argumentSlots c.pending) args)
      fun _ => True := by
  have hpending : c.skipNewlines.pending = behindNewlines c.pending := rfl
  cases hnext : behindNewlines c.pending with
  | nil =>
      refine meets_of_size_zero _ ?_ _
      rw [Cursor.size, hpending, hnext]
      rfl
  | cons token rest =>
      have hkind : token.kind ≠ .rightParen := by
        intro hkind
        unfold Cursor.eat? at hopen
        split at hopen
        · rename_i hnil
          rw [hpending, hnext] at hnil
          cases hnil
        · rename_i token' rest' hcons
          rw [hpending, hnext] at hcons
          cases hcons
          rw [if_pos hkind] at hopen
          cases hopen
      rw [argumentSlots_cons hnext hkind, ← hnext]
      exact h

mutual

/-- Behind an argument, where its end is in sight. -/
theorem slotsRead_others (c : Cursor) :
    (arguments false c).Meets
      (fun args _ =>
        skipArgument 0 c.pending = some (behindNewlines c.pending) ∧
          SlotsRead (slotsBehind (some (behindNewlines c.pending))) args)
      fun _ => True := by
  have hskip := c.size_skipNewlines
  rw [arguments]
  split
  · rename_i rest _ heat
    obtain ⟨token, hkind, hpending, _⟩ := eaten_of_eat? heat
    have hnext : behindNewlines c.pending = token :: rest.pending := hpending
    refine ⟨skipArgument_mark hnext (Or.inl hkind), ?_⟩
    rw [hnext, slotsBehind, if_neg (by rw [hkind]; decide)]
    exact .nil
  · rw [if_neg (by decide)]
    refine (meets_expect c.skipNewlines .comma "',' or ')'").ofDone.bind ?_
    intro _ rest hrest hcomma
    have hskip' := rest.size_skipNewlines
    obtain ⟨token, hkind, hpending, _⟩ := hcomma
    have hnext : behindNewlines c.pending = token :: rest.pending := hpending
    have hend := skipArgument_mark hnext (Or.inr hkind)
    have hslots : slotsBehind (some (behindNewlines c.pending)) =
        argumentSlots rest.pending := by
      rw [hnext, slotsBehind, if_pos hkind]
    rw [hslots]
    split
    · rename_i rest' _ heat
      obtain ⟨close, hclose, hbehind, _⟩ := eaten_of_eat? heat
      refine ⟨hend, ?_⟩
      rw [argumentSlots_end hbehind hclose]
      exact .nil
    · rename_i hopen
      apply Outcome.Meets.weaken
      exact (slotsRead_first hopen (slotsRead_argument rest.skipNewlines)).imp
        fun _ _ hargs => ⟨hend, hargs⟩
termination_by 20 * c.size + 15

theorem slotsRead_argument (c : Cursor) :
    (argument c).Meets
      (fun args _ => SlotsRead
        (c.pending :: slotsBehind (skipArgument 0 c.pending)) args)
      fun _ => True := by
  have hname : ∀ depth, skipArgument depth c.pending =
      skipArgument depth (splitName c.pending).2 :=
    fun depth => (skipArgument_splitName depth c.pending).symm
  have hstart : (c.leaving (splitName c.pending).2).size ≤ c.size :=
    length_splitName c.pending
  have hexpression := phrase_expression (c.leaving (splitName c.pending).2)
  rw [argument]
  split
  · rename_i value rest hrest heq
    rw [heq] at hexpression
    apply Outcome.Meets.weaken
    refine (slotsRead_others rest).map ?_
    rintro args rest' ⟨hend, hargs⟩
    have hslot : skipArgument 0 c.pending =
        some (behindNewlines rest.pending) := by
      rw [hname 0, ← hend]
      exact hexpression.ends 0
    rw [hslot]
    exact .complete ⟨_, rest, hrest, rfl, heq, hslot⟩ hargs
  · rename_i fault heq
    split
    · rename_i hcomplaint
      split
      · exact trivial
      · rename_i left hleft
        have hless : left.length ≤ c.size :=
          Nat.le_trans (length_skipArgument hleft) (length_splitName c.pending)
        apply Outcome.Meets.weaken
        refine (slotsRead_others ⟨left, c.finish, fault.nextId⟩).imp ?_
        rintro args rest ⟨_, hargs⟩
        rw [behindNewlines_of_skipArgument hleft, ← hleft, ← hname 0] at hargs
        exact .dropped ⟨_, fault, rfl, heq, hcomplaint⟩ hargs
    · exact trivial
termination_by 20 * c.size + 16
decreasing_by
  · omega
  · simp only [Cursor.size] at *
    omega

end

theorem slotsRead_arguments (c : Cursor) :
    (arguments true c).Meets
      (fun args _ => SlotsRead (argumentSlots c.pending) args)
      fun _ => True := by
  rw [arguments]
  split
  · rename_i rest _ heat
    obtain ⟨token, hkind, hpending, _⟩ := eaten_of_eat? heat
    show SlotsRead (argumentSlots c.pending) []
    rw [argumentSlots_end hpending hkind]
    exact .nil
  · rename_i hopen
    rw [if_pos rfl]
    apply Outcome.Meets.weaken
    exact slotsRead_first hopen (slotsRead_argument c.skipNewlines)

/-- A call's arguments are read slot by slot. -/
theorem slotsRead_callArguments (c : Cursor) :
    (callArguments c).Meets
      (fun args _ => SlotsRead (argumentSlots c.pending.tail) args)
      fun _ => True := by
  rw [callArguments]
  refine (meets_expect c .leftParen "'('").ofDone.bind ?_
  intro _ rest hrest hopen
  obtain ⟨token, _, hpending, _⟩ := hopen
  apply Outcome.Meets.weaken
  rw [hpending]
  exact slotsRead_arguments rest

end Barscript.Script

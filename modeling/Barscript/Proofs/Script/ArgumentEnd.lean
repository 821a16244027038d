import Barscript.Proofs.Script.Padding

/-!
# The end of an argument

Where an argument that is no expression ends depends on the classes of the
tokens alone (`endOf_ahead`). Balanced brackets do not move the end, and with
a bracket open around them neither do the lists that are added to a call, so
an argument that is dropped ends at the same place in a padded script
(`Padded.skipped`).
-/

namespace Barscript.Script

/-- The token of a spelling, at no place in particular. -/
def Spelling.token (s : Spelling) : Token :=
  ⟨s.1, s.2, .start⟩

/-- What is left from the end of the current argument on, with `depth` more
brackets open. -/
def endOf (depth : Nat) (A : List Spelling) : Option (List Spelling) :=
  (skipArgument depth (A.map Spelling.token)).map (List.map Token.spelling)

theorem endOf_ahead (depth : Nat) (c : Cursor) :
    endOf depth c.ahead =
      (skipArgument depth c.pending).map (List.map Token.spelling) := by
  have hmap : c.ahead.map Spelling.token =
      c.pending.map fun token => Spelling.token token.spelling :=
    List.map_map
  unfold endOf
  have hskip := skipArgument_map (f := fun token => token.spelling.token)
    (fun _ => rfl) depth c.pending
  rw [hmap, hskip, Option.map_map]
  congr 1
  funext left
  exact List.map_map

section

variable {s : Spelling} {A B L Z : List Spelling} {depth : Nat}

theorem endOf_congr {depth' : Nat}
    (h : skipArgument depth (A.map Spelling.token) =
      skipArgument depth' (B.map Spelling.token)) :
    endOf depth A = endOf depth' B :=
  congrArg _ h

theorem endOf_plain (h : s.1.isMark = false) :
    endOf depth (s :: A) = endOf depth A :=
  endOf_congr (skipArgument_plain h depth)

theorem endOf_opening (h : s.1.isOpening = true) :
    endOf depth (s :: A) = endOf (depth + 1) A := by
  refine endOf_congr (skipArgument_opening ?_ depth)
  show s.1 = _ ∨ s.1 = _
  cases hkind : s.1 <;> rw [hkind] at h <;>
    first | exact Or.inl rfl | exact Or.inr rfl | cases h

theorem endOf_closing (h : s.1.isClosing = true) :
    endOf (depth + 1) (s :: A) = endOf depth A := by
  refine endOf_congr (skipArgument_closing ?_ depth)
  show s.1 = _ ∨ s.1 = _
  cases hkind : s.1 <;> rw [hkind] at h <;>
    first | exact Or.inl rfl | exact Or.inr rfl | cases h

theorem endOf_comma (h : s.1 = .comma) :
    endOf (depth + 1) (s :: A) = endOf (depth + 1) A :=
  endOf_congr (skipArgument_comma h depth)

theorem endOf_end (h : s.1 = .rightParen ∨ s.1 = .comma) :
    endOf 0 (s :: A) = some (s :: A) := by
  have hend : skipArgument 0 ((s :: A).map Spelling.token) =
      some ((s :: A).map Spelling.token) := skipArgument_end h
  unfold endOf
  rw [hend]
  refine congrArg some (List.map_map.trans ?_)
  exact List.map_id _

theorem endOf_unindex (h : s.1 = .rightBracket) : endOf 0 (s :: A) = none := by
  have hkind : (Spelling.token s).kind = .rightBracket := h
  unfold endOf
  rw [List.map_cons, skipArgument, hkind]
  rfl

theorem endOf_breaks (hZ : LineBreaks Z) :
    endOf depth (Z ++ A) = endOf depth A := by
  induction Z with
  | nil => rfl
  | cons s Z ih =>
      have hs := hZ s (List.mem_cons_self ..)
      rw [List.cons_append, endOf_plain (by rw [hs]; rfl)]
      exact ih fun t ht => hZ t (List.mem_cons_of_mem _ ht)

theorem endOf_pastBreaks (depth : Nat) (A : List Spelling) :
    endOf depth (pastBreaks A) = endOf depth A := by
  induction A with
  | nil => rfl
  | cons s A ih =>
      by_cases hs : s.1 = .newline
      · rw [pastBreaks_newline hs, ih, endOf_plain (by rw [hs]; rfl)]
      · rw [pastBreaks_cons hs]

theorem endOf_balanced (h : Balanced B) (depth : Nat) (A : List Spelling) :
    endOf (depth + 1) (B ++ A) = endOf (depth + 1) A := by
  induction h generalizing depth A with
  | nil => rfl
  | @token s _ h h' _ ih =>
      rw [List.cons_append]
      by_cases hcomma : s.1 = .comma
      · rw [endOf_comma hcomma, ih]
      · rw [endOf_plain, ih]
        rw [isMark_eq, h, h']
        simpa using hcomma
  | enclosed h _ h' _ ihB ihC =>
      rw [List.cons_append, List.append_assoc, endOf_opening h, ihB,
        List.cons_append, endOf_closing h', ihC]

theorem endOf_bracketList (h : BracketList L) (depth : Nat)
    (A : List Spelling) : endOf depth (L ++ A) = endOf depth A := by
  obtain ⟨l, r, B, hB, rfl⟩ := h
  rw [List.cons_append, List.append_assoc, endOf_opening rfl,
    endOf_balanced hB, List.cons_append, endOf_closing rfl, List.nil_append]

theorem endOf_list (h : ListArgument L) (depth : Nat) (A : List Spelling) :
    endOf depth (L ++ A) = endOf depth A := by
  cases h with
  | plain h => exact endOf_bracketList h depth A
  | named hword h =>
      rw [List.cons_append, List.cons_append, endOf_plain, endOf_plain rfl,
        endOf_bracketList h]
      rcases hword with hword | hword <;> rw [hword] <;> rfl

/-- With a bracket open around it a list in front is nothing. -/
theorem endOf_listBefore (h : Z = [] ∨ ListBefore A Z) (depth : Nat)
    (B : List Spelling) : endOf (depth + 1) (Z ++ B) = endOf (depth + 1) B := by
  rcases h with rfl | h
  · rfl
  cases h with
  | separated hZ hL hZ' =>
      rw [List.append_assoc, endOf_breaks hZ, List.append_assoc,
        endOf_list hL, List.append_assoc, endOf_breaks hZ', List.cons_append,
        endOf_comma rfl, List.nil_append]
  | last hZ hL => rw [List.append_assoc, endOf_breaks hZ, endOf_list hL]

theorem endOf_listBehind (h : ListBehind Z) (depth : Nat)
    (B : List Spelling) : endOf (depth + 1) (Z ++ B) = endOf (depth + 1) B := by
  cases h with
  | separated hZ hZ' hL =>
      rw [List.append_assoc, endOf_breaks hZ, List.cons_append, endOf_comma rfl,
        List.append_assoc, endOf_breaks hZ', endOf_list hL]

variable {called : List Spelling → Prop} {levels : List Bool}
  {A' : List Spelling}

/-- **An argument that is dropped ends at the same place** with padding and
without it. -/
theorem Padded.skipped (h : Padded called levels A A') (depth : Nat) :
    Option.Rel (Padded called (levels.drop depth)) (endOf depth A)
      (endOf depth A') := by
  induction h generalizing depth with
  | nil => exact .none
  | token hs _ ih =>
      rw [endOf_plain hs, endOf_plain hs]
      exact ih depth
  | index hs _ ih =>
      rw [endOf_opening (by rw [hs]; rfl), endOf_opening (by rw [hs]; rfl)]
      exact ih (depth + 1)
  | unindex hs _ ih =>
      cases depth with
      | zero =>
          rw [endOf_unindex hs, endOf_unindex hs]
          exact .none
      | succ depth =>
          rw [endOf_closing (by rw [hs]; rfl), endOf_closing (by rw [hs]; rfl),
            ← List.drop_tail]
          exact ih depth
  | group hs _ ih =>
      have hinner := ih (depth + 1)
      rw [endOf_pastBreaks, endOf_pastBreaks] at hinner
      rw [endOf_opening (by rw [hs]; rfl), endOf_opening (by rw [hs]; rfl)]
      exact hinner
  | call hname hs _ hZ _ ih =>
      have hinner := ih (depth + 1)
      rw [endOf_pastBreaks, endOf_pastBreaks] at hinner
      rw [endOf_plain hname.isMark, endOf_plain hname.isMark,
        endOf_opening (by rw [hs]; rfl), endOf_opening (by rw [hs]; rfl),
        endOf_listBefore hZ]
      exact hinner
  | @close levels s A A' B B' Z hs hA hA' hZ rest ih =>
      have hline : s.1 ≠ .newline := by rw [hs]; decide
      have hclosing : s.1.isClosing = true := by rw [hs]; rfl
      have hfirst : ∀ depth, endOf depth A = endOf depth (s :: B) := by
        intro depth
        rw [← hA, endOf_pastBreaks]
      have hfirst' : ∀ depth, endOf depth A' = endOf depth (s :: B') := by
        intro depth
        rw [← hA', endOf_pastBreaks]
      cases depth with
      | succ depth =>
          have hlist : endOf (depth + 1) (Z ++ A') = endOf (depth + 1) A' := by
            rcases hZ with rfl | ⟨_, hZ⟩
            · rfl
            · exact endOf_listBehind hZ depth A'
          rw [hlist, hfirst, hfirst', endOf_closing hclosing,
            endOf_closing hclosing, ← List.drop_tail]
          exact ih depth
      | zero =>
          rw [hfirst, endOf_end (Or.inl hs)]
          rcases hZ with rfl | ⟨hlevel, hZ, hZ', hL⟩
          · rw [List.nil_append, hfirst', endOf_end (Or.inl hs)]
            exact .some (Padded.closed hs rest)
          · rw [List.append_assoc, endOf_breaks hZ, List.cons_append,
              endOf_end (Or.inr rfl)]
            exact .some (.close hs (pastBreaks_cons hline _) hA'
              (Or.inr ⟨hlevel, listBehind_comma hZ' hL⟩) rest)
  | @comma levels s s' A A' B Z B' hs hs' hA hA' hZ rest ih =>
      rw [← endOf_pastBreaks depth A, ← endOf_pastBreaks depth A', hA, hA']
      cases depth with
      | zero =>
          rw [endOf_end (Or.inr hs), endOf_end (Or.inr hs')]
          exact .some (.comma hs hs' (pastBreaks_cons (by rw [hs]; decide) _)
            (pastBreaks_cons (by rw [hs']; decide) _) hZ rest)
      | succ depth =>
          have hinner := ih (depth + 1)
          rw [endOf_pastBreaks, endOf_pastBreaks] at hinner
          rw [endOf_comma hs, endOf_comma hs',
            endOf_listBefore (hZ.imp_right And.right)]
          exact hinner

end

end Barscript.Script

import Barscript.Proofs.Script.Places

/-!
# Where a source may be cut

Beside a parenthesis or a comma that is a token, a source can be cut: both
parts are cut up into the pieces that they have in the whole source
(`Token.StandsBehind.cut`). What stands behind a piece is never looked back
from; what stands in front of the mark might go on with it, but then the mark
would be no token.
-/

namespace Barscript.Script

/-- A source is read on behind some of its pieces as if it started there. -/
theorem lexemes_behind {source : List Char} {before behind : List Lexeme}
    (h : lexemes source = before ++ behind) :
    lexemes (textOf behind) = behind := by
  induction before generalizing source with
  | nil =>
      have h : lexemes source = behind := h
      rw [← h, textOf, flatMap_text_lexemes]
  | cons piece before ih =>
      cases source with
      | nil =>
          rw [lexemes] at h
          cases h
      | cons c rest =>
          rw [lexemes] at h
          exact ih (List.cons.inj h).2

/-! ## Pieces that go on -/

section

variable {m : Char} {behind : List Char}

/-- An open string takes the character behind it. -/
theorem splitString_open (hm : isSeam m = true) {quote : Char}
    (hquote : m ≠ quote) {text : List Char}
    (h : (splitString quote text).2 = []) :
    text.length < (splitString quote (text ++ m :: behind)).1.length := by
  have hescape : m ≠ '\\' := by
    rintro rfl
    cases hm
  fun_induction splitString quote text with
  | case1 =>
      rw [List.nil_append, splitString_plain hquote hescape]
      exact Nat.zero_lt_succ _
  | case2 rest => cases h
  | case3 hne =>
      rw [List.cons_append, List.nil_append, splitString_escape hne,
        List.length_cons, List.length_cons]
      exact Nat.succ_lt_succ (Nat.zero_lt_succ _)
  | case4 d rest body left heq hne ih =>
      rw [heq] at ih
      rw [List.cons_append, List.cons_append, splitString_escape hne,
        List.length_cons, List.length_cons, List.length_cons, List.length_cons]
      exact Nat.succ_lt_succ (Nat.succ_lt_succ (ih h))
  | case5 c rest hne hplain body left heq ih =>
      rw [heq] at ih
      rw [List.cons_append, splitString_plain hne hplain, List.length_cons,
        List.length_cons]
      exact Nat.succ_lt_succ (ih h)

/-- A comment that is not ended takes the character behind it. -/
theorem splitComment_open {body : List Char} (h : (splitComment body).2 = [])
    (hm : m ≠ '\n') :
    body.length + 2 < (splitComment (body ++ m :: behind)).1.text.length := by
  rw [splitComment_rest] at h
  have hrest : (splitComment (body ++ m :: behind)).2 =
      behind.dropWhile (· != '\n') := by
    rw [splitComment_rest, List.dropWhile_append, h,
      List.dropWhile_cons_of_pos (by simpa using hm)]
    rfl
  have hlength := congrArg List.length
    (splitComment_append (body ++ m :: behind))
  have hless := (List.dropWhile_sublist (l := behind) (· != '\n')).length_le
  rw [hrest, List.length_append, List.length_cons, List.length_cons,
    List.length_append, List.length_cons] at hlength
  omega

/-- **A piece that goes on takes the seam in.** -/
theorem splitLexeme_goesOn (hm : isSeam m = true) {c : Char}
    {rest : List Char}
    (h : (splitLexeme c rest).1.goesOn (splitLexeme c rest).2 m = true) :
    rest.length + 1 <
      (splitLexeme c (rest ++ m :: behind)).1.text.length := by
  unfold splitLexeme at h ⊢
  simp only [head?_seam hm, startsWithDigit_seam hm]
  split_ifs at h ⊢ with hspace hcomment hnewline hnumber hstring hword
  · cases h
  · obtain ⟨more, rfl⟩ := List.head?_eq_some_iff.mp hcomment.2
    rw [goesOn_splitComment, Bool.and_eq_true, List.isEmpty_iff, bne_iff_ne]
      at h
    exact splitComment_open h.1 h.2
  · cases h
  · cases h
  · have hquote : m ≠ c := by
      rintro rfl
      rcases hstring with rfl | rfl <;> cases hm
    cases hsplit : (splitString c rest).2 with
    | nil =>
        have hlength : rest.length <
            (splitString c (rest ++ m :: behind)).1.length :=
          splitString_open hm hquote hsplit
        split
        · rename_i body heq
          rw [heq] at hlength
          simpa [Lexeme.text] using hlength
        · rename_i body d left heq
          rw [heq] at hlength
          have hlength : rest.length < body.length := hlength
          show rest.length + 1 < (c :: (body ++ [c])).length
          rw [List.length_cons, List.length_append]
          omega
    | cons d left =>
        rw [show splitString c rest = (_, d :: left) from
          Prod.ext rfl hsplit] at h
        cases h
  · cases h
  · exfalso
    unfold splitSymbol at h
    dsimp only at h
    split at h
    · cases hone : oneCharKind? c <;> (rw [hone] at h; cases h)
    · split at h
      · cases h
      · cases hone : oneCharKind? c <;> (rw [hone] at h; cases h)

end

/-! ## Both sides of a cut -/

theorem isOpen_of_goesOn {piece : Lexeme} {left : List Char} {m : Char}
    (h : piece.goesOn left m = false) : piece.isOpen = false := by
  cases piece with
  | string quote body closed => exact h
  | _ => rfl

theorem textOf_cons (piece : Lexeme) (pieces : List Lexeme) :
    textOf (piece :: pieces) = piece.text ++ textOf pieces :=
  List.flatMap_cons

theorem textOf_append (pieces more : List Lexeme) :
    textOf (pieces ++ more) = textOf pieces ++ textOf more :=
  List.flatMap_append

/-- **In front of a seam that starts a piece the pieces are decided.** None of
them is an open string, and they are the same whatever comes behind the seam,
or when nothing does. -/
theorem lexemes_front {m : Char} (hm : isSeam m = true) {behind : List Char}
    {before more : List Lexeme}
    (h : lexemes (textOf before ++ m :: behind) = before ++ more) :
    StringsClosed (textOf before) ∧ lexemes (textOf before) = before ∧
      ∀ other, lexemes (textOf before ++ m :: other) =
        before ++ lexemes (m :: other) := by
  unfold StringsClosed
  induction before with
  | nil =>
      have hnone : lexemes (textOf []) = [] := by
        show lexemes [] = []
        rw [lexemes]
      rw [hnone]
      exact ⟨fun piece hpiece => absurd hpiece List.not_mem_nil, rfl,
        fun other => rfl⟩
  | cons piece before ih =>
      rw [textOf_cons, List.append_assoc] at h
      obtain ⟨c, rest, htext⟩ : ∃ c rest, piece.text ++ textOf before =
          c :: rest := by
        refine List.exists_cons_of_ne_nil fun hnil => ?_
        rw [← List.append_assoc, hnil, List.nil_append, lexemes] at h
        -- The first piece of what starts with the seam is not empty.
        have hpiece := (List.cons.inj h).1
        have hempty := (List.append_eq_nil_iff.mp hnil).1
        rw [← hpiece] at hempty
        exact splitLexeme_text_ne_nil m behind hempty
      rw [← List.append_assoc, htext, List.cons_append, lexemes] at h
      obtain ⟨hpiece, hmore⟩ := List.cons.inj h
      -- A piece that goes on would be longer than the text.
      have hends : (splitLexeme c rest).1.goesOn (splitLexeme c rest).2 m =
          false := by
        rw [← Bool.not_eq_true]
        intro hgoes
        have hlonger : rest.length + 1 <
            (splitLexeme c (rest ++ m :: behind)).1.text.length :=
          splitLexeme_goesOn hm hgoes
        have hlength := congrArg List.length htext
        rw [List.length_append, List.length_cons] at hlength
        rw [hpiece] at hlonger
        omega
      have hcut : ∀ other, splitLexeme c (rest ++ m :: other) =
          ((splitLexeme c rest).1, (splitLexeme c rest).2 ++ m :: other) :=
        fun _ => splitLexeme_seam hm hends
      rw [hcut behind] at hpiece hmore
      have hpiece : (splitLexeme c rest).1 = piece := hpiece
      have hleft : (splitLexeme c rest).2 = textOf before := by
        have hwhole := splitLexeme_append c rest
        rw [hpiece, ← htext] at hwhole
        exact List.append_cancel_left hwhole
      rw [hleft] at hmore
      obtain ⟨hclosed, hsame, hothers⟩ := ih hmore
      have hall : lexemes (c :: rest) = piece :: before := by
        rw [lexemes, hpiece, hleft, hsame]
      rw [textOf_cons, htext, hall]
      refine ⟨?_, rfl, fun other => ?_⟩
      · rw [hsame] at hclosed
        rw [← hpiece]
        exact List.forall_mem_cons.mpr ⟨isOpen_of_goesOn hends, hclosed⟩
      · rw [List.cons_append, lexemes, hcut other, hpiece, hleft, hothers,
          List.cons_append]

/-! ## Marks -/

/-- The classes of the marks at a seam. -/
def TokenKind.isSeam : TokenKind → Bool
  | .leftParen | .rightParen | .comma => true
  | _ => false

theorem TokenKind.isSeam_iff {kind : TokenKind} :
    kind.isSeam = true ↔
      kind = .leftParen ∨ kind = .rightParen ∨ kind = .comma := by
  cases kind <;> decide

theorem ofWord_isSeam (word : String) :
    (TokenKind.ofWord word).isSeam = false := by
  unfold TokenKind.ofWord
  split_ifs <;> rfl

/-- Such a mark is one character, whatever stands behind it. -/
theorem mark_of_isSeam {piece : Lexeme} {behind : List Char}
    (hfits : piece.Fits behind) {s : Spelling} (hs : piece.token? = some s)
    (hkind : s.1.isSeam = true) :
    ∃ m, isSeam m = true ∧ piece.text = [m] ∧ piece.isOpen = false ∧
      ∀ rest, splitLexeme m rest = (piece, rest) := by
  have hlone : ∀ {m kind}, kind.isSeam = true → oneCharKind? m = some kind →
      isSeam m = true ∧ ∀ rest, splitLexeme m rest = (.symbol kind [m], rest) := by
    intro m kind hseam hone
    unfold oneCharKind? at hone
    split at hone <;> cases hone <;> first
      | exact ⟨rfl, fun rest => by cases rest <;> rfl⟩
      | cases hseam
  cases piece with
  | symbol kind text =>
      obtain rfl : (kind, String.ofList text) = s := Option.some.inj hs
      cases hfits with
      | one hone =>
          obtain ⟨hm, hsplit⟩ := hlone hkind hone
          exact ⟨_, hm, rfl, rfl, hsplit⟩
      | two htwo =>
          unfold twoCharKind? at htwo
          split at htwo <;> cases htwo <;> cases hkind
  | word letters =>
      obtain rfl := Option.some.inj hs
      exact absurd hkind (by rw [ofWord_isSeam]; decide)
  | newline | pragma | number | string =>
      obtain rfl := Option.some.inj hs
      cases hkind
  | blank | comment | stray => cases hs

/-- **Beside such a mark a source may be cut.** In front of it and behind it the
pieces are those of the whole source, and in front of it no string is open. -/
theorem Token.StandsBehind.cut {source : String} {earlier : List Token}
    {token : Token} {before rest : List Lexeme} {piece : Lexeme}
    (h : token.StandsBehind source earlier before (piece :: rest))
    (hkind : token.kind.isSeam = true) :
    (StringsClosed (textOf before) ∧ lexemes (textOf before) = before ∧
        lexemes (textOf (piece :: rest)) = piece :: rest) ∧
      StringsClosed (textOf (before ++ [piece])) ∧
        lexemes (textOf (before ++ [piece])) = before ++ [piece] ∧
        lexemes (textOf rest) = rest := by
  have hfits : piece.Fits (textOf rest) := by
    have hfitting := fitting_lexemes (textOf (piece :: rest))
    rw [lexemes_behind h.pieces] at hfitting
    exact hfitting.1
  obtain ⟨m, hm, htext, hopen, hsplit⟩ := mark_of_isSeam hfits h.opens hkind
  have hsource : source.toList = textOf before ++ m :: textOf rest := by
    rw [h.source_eq, textOf_cons, htext]
    rfl
  have hpieces : lexemes (textOf before ++ m :: textOf rest) =
      before ++ piece :: rest := by
    rw [← hsource]
    exact h.pieces
  obtain ⟨hclosed, hbefore, hother⟩ := lexemes_front hm hpieces
  have hmark : lexemes (textOf (before ++ [piece])) = before ++ [piece] := by
    rw [textOf_append, textOf_cons, htext]
    show lexemes (textOf before ++ m :: []) = _
    rw [hother, lexemes, hsplit, lexemes]
  refine ⟨⟨hclosed, hbefore, lexemes_behind h.pieces⟩, ?_, hmark, ?_⟩
  · unfold StringsClosed at hclosed ⊢
    rw [hbefore] at hclosed
    rw [hmark, List.forall_mem_append]
    exact ⟨hclosed, List.forall_mem_singleton.mpr hopen⟩
  · exact lexemes_behind (h.pieces.trans (List.append_cons before piece rest))

end Barscript.Script

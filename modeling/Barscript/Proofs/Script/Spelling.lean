import Barscript.Script.Cursor
import Mathlib.Tactic.SplitIfs

/-!
# What a script spells

The classes and values of the tokens of a script, without their places. Words,
numbers and operators end in front of the end of a line, a parenthesis and a
comma, so a source may be cut there, as long as no string is left open and no
comment (`splitLexeme_seam`). In particular what a line spells does not depend on the
lines behind it (`lexemes_line`).
-/

namespace Barscript.Script

open Barscript.Text

/-- The class and the value of a token. -/
abbrev Spelling := TokenKind × String

def Token.spelling (token : Token) : Spelling :=
  (token.kind, token.value)

/-- What a source spells. -/
def spellings (source : List Char) : List Spelling :=
  (lexemes source).filterMap Lexeme.token?

theorem spellings_nil : spellings [] = [] := by
  unfold spellings
  rw [lexemes]
  rfl

/-- The end of a line. -/
def lineBreak : Spelling :=
  (.newline, "\n")

/-- Whether a piece is a string without its closing quote. -/
def Lexeme.isOpen : Lexeme → Bool
  | .string _ _ closed => !closed
  | _ => false

/-- No string of the source is left open. -/
def StringsClosed (source : List Char) : Prop :=
  ∀ piece ∈ lexemes source, piece.isOpen = false

/-! ## One piece in front of a seam -/

/-- The characters that no word, number or operator goes on with. -/
def isSeam (c : Char) : Bool :=
  ['\n', '(', ')', ','].contains c

/-- Whether a piece of a source, of which `left` is left, goes on with `m` behind
the source: an open string does, and a comment that is not ended. -/
def Lexeme.goesOn (piece : Lexeme) (left : List Char) (m : Char) : Bool :=
  match piece with
  | .string _ _ closed => !closed
  | .comment _ | .pragma _ _ => left.isEmpty && m != '\n'
  | _ => false

/-- A comment does not go on behind the line. -/
theorem goesOn_line (piece : Lexeme) (left : List Char) :
    piece.goesOn left '\n' = piece.isOpen := by
  unfold Lexeme.goesOn
  cases piece with
  | comment | pragma => exact Bool.and_false _
  | _ => rfl

section

variable {m : Char} {behind : List Char}

theorem isSeam_cases (h : isSeam m = true) :
    m = '\n' ∨ m = '(' ∨ m = ')' ∨ m = ',' := by
  simpa [isSeam] using h

theorem isWordChar_seam (h : isSeam m = true) : isWordChar m = false := by
  rcases isSeam_cases h with rfl | rfl | rfl | rfl <;> decide

theorem twoCharKind?_seam (h : isSeam m = true) (c : Char) :
    twoCharKind? c m = none := by
  rcases isSeam_cases h with rfl | rfl | rfl | rfl <;>
    (unfold twoCharKind?; split <;> first | rfl | contradiction)

/-- A seam opens no comment behind a slash, and no number behind a point. -/
theorem head?_seam (h : isSeam m = true) (rest : List Char) :
    (rest ++ m :: behind).head? = some '/' ↔ rest.head? = some '/' := by
  cases rest with
  | nil => rcases isSeam_cases h with rfl | rfl | rfl | rfl <;> simp
  | cons d more => rfl

theorem startsWithDigit_seam (h : isSeam m = true) (rest : List Char) :
    startsWithDigit (rest ++ m :: behind) = startsWithDigit rest := by
  cases rest with
  | nil => rcases isSeam_cases h with rfl | rfl | rfl | rfl <;> rfl
  | cons d more => rfl

theorem takeWhile_seam {p : Char → Bool} (hp : p m = false)
    (text : List Char) :
    (text ++ m :: behind).takeWhile p = text.takeWhile p := by
  induction text with
  | nil => rw [List.nil_append, List.takeWhile_cons, hp]; rfl
  | cons c rest ih =>
      rw [List.cons_append, List.takeWhile_cons, List.takeWhile_cons, ih]

theorem dropWhile_seam {p : Char → Bool} (hp : p m = false)
    (text : List Char) :
    (text ++ m :: behind).dropWhile p = text.dropWhile p ++ m :: behind := by
  induction text with
  | nil => rw [List.nil_append, List.dropWhile_cons, hp]; rfl
  | cons c rest ih =>
      rw [List.cons_append, List.dropWhile_cons, List.dropWhile_cons, ih]
      split <;> rfl

theorem splitNumber_seam (h : isSeam m = true) (seen : Bool)
    (text : List Char) :
    splitNumber seen (text ++ m :: behind) =
      ((splitNumber seen text).1, (splitNumber seen text).2 ++ m :: behind) := by
  induction text generalizing seen with
  | nil => rcases isSeam_cases h with rfl | rfl | rfl | rfl <;> rfl
  | cons c rest ih =>
      rw [List.cons_append, splitNumber, splitNumber]
      split
      · rw [ih]
      · split
        · rw [ih]
        · rfl

theorem splitString_plain {quote c : Char} (hquote : c ≠ quote)
    (hescape : c ≠ '\\') (rest : List Char) :
    splitString quote (c :: rest) =
      (c :: (splitString quote rest).1, (splitString quote rest).2) := by
  rw [splitString.eq_def]
  dsimp only
  rw [if_neg hquote, if_neg hescape]

theorem splitString_escape {quote : Char} (hquote : '\\' ≠ quote) (d : Char)
    (rest : List Char) :
    splitString quote ('\\' :: d :: rest) =
      ('\\' :: d :: (splitString quote rest).1,
        (splitString quote rest).2) := by
  rw [splitString.eq_def]
  dsimp only
  rw [if_neg hquote, if_pos rfl]

/-- A string that is closed ends there, whatever comes behind. -/
theorem splitString_closed {quote : Char} {text : List Char}
    (h : (splitString quote text).2 ≠ []) (behind : List Char) :
    splitString quote (text ++ behind) =
      ((splitString quote text).1, (splitString quote text).2 ++ behind) := by
  fun_induction splitString quote text with
  | case1 => exact absurd rfl h
  | case2 rest =>
      rw [List.cons_append, splitString.eq_def]
      dsimp only
      rw [if_pos rfl]
  | case3 hquote => exact absurd rfl h
  | case4 d rest body left heq hquote ih =>
      rw [heq] at ih
      rw [List.cons_append, List.cons_append, splitString_escape hquote, ih h]
  | case5 c rest hquote hescape body left heq ih =>
      rw [heq] at ih
      rw [List.cons_append, splitString_plain hquote hescape, ih h]

/-- The rest of the line belongs to the comment. -/
theorem splitComment_rest (body : List Char) :
    (splitComment body).2 = body.dropWhile (· != '\n') := by
  unfold splitComment
  dsimp only
  split
  · rfl
  · split <;> rfl

/-- A comment that is ended, or that the seam ends, ends there. -/
theorem splitComment_seam {body : List Char}
    (h : m = '\n' ∨ (splitComment body).2 ≠ []) :
    splitComment (body ++ m :: behind) =
      ((splitComment body).1, (splitComment body).2 ++ m :: behind) := by
  rw [splitComment_rest] at h
  have htake : (body ++ m :: behind).takeWhile (· != '\n') =
      body.takeWhile (· != '\n') ∧
      (body ++ m :: behind).dropWhile (· != '\n') =
        body.dropWhile (· != '\n') ++ m :: behind := by
    rcases h with rfl | h
    · exact ⟨takeWhile_seam rfl body, dropWhile_seam rfl body⟩
    · rw [List.dropWhile_append, if_neg (by simpa using h)]
      refine ⟨?_, rfl⟩
      rw [List.takeWhile_append, if_neg]
      intro hlength
      have hwhole := congrArg List.length
        (List.takeWhile_append_dropWhile (p := (· != '\n')) (l := body))
      rw [List.length_append, hlength] at hwhole
      exact h (List.length_eq_zero_iff.mp (by omega))
  unfold splitComment
  dsimp only
  rw [htake.1, htake.2]
  cases afterFront? pragmaMark (body.takeWhile (· != '\n')) with
  | none => rfl
  | some marked =>
      dsimp only
      cases (marked.takeWhile Char.isDigit).isEmpty <;> rfl

theorem splitSymbol_seam (h : isSeam m = true) (c : Char) (rest : List Char) :
    splitSymbol c (rest ++ m :: behind) =
      ((splitSymbol c rest).1, (splitSymbol c rest).2 ++ m :: behind) := by
  unfold splitSymbol
  dsimp only
  cases rest with
  | nil =>
      rw [List.nil_append]
      dsimp only
      rw [twoCharKind?_seam h]
      cases oneCharKind? c <;> rfl
  | cons d more =>
      rw [List.cons_append]
      dsimp only
      cases twoCharKind? c d with
      | some kind => rfl
      | none => cases oneCharKind? c <;> rfl

/-- A comment goes on unless it is ended. -/
theorem goesOn_splitComment (body : List Char) :
    (splitComment body).1.goesOn (splitComment body).2 m =
      ((splitComment body).2.isEmpty && m != '\n') := by
  unfold splitComment
  dsimp only
  split
  · rfl
  · split <;> rfl

/-- **A piece in front of a seam ends there**, unless it goes on. -/
theorem splitLexeme_seam (hm : isSeam m = true) {c : Char} {rest : List Char}
    (h : (splitLexeme c rest).1.goesOn (splitLexeme c rest).2 m = false) :
    splitLexeme c (rest ++ m :: behind) =
      ((splitLexeme c rest).1, (splitLexeme c rest).2 ++ m :: behind) := by
  unfold splitLexeme at h ⊢
  simp only [head?_seam hm, startsWithDigit_seam hm]
  split_ifs at h ⊢ with hspace hcomment hnewline hnumber hstring hword
  · rfl
  · obtain ⟨d, more, rfl⟩ : ∃ d more, rest = d :: more := by
      cases rest with
      | nil => exact absurd hcomment.2 (by simp)
      | cons d more => exact ⟨d, more, rfl⟩
    rw [goesOn_splitComment, Bool.and_eq_false_iff] at h
    refine splitComment_seam (h.symm.imp ?_ ?_)
    · simp
    · simp
  · rfl
  · rw [← List.cons_append, splitNumber_seam hm]
  · -- An open string goes on.
    rcases hsplit : splitString c rest with ⟨body, _ | ⟨d, left⟩⟩
    · rw [hsplit] at h
      cases h
    · rw [splitString_closed (by rw [hsplit]; exact List.cons_ne_nil _ _),
        hsplit]
      rfl
  · have hword := isWordChar_seam hm
    rw [takeWhile_seam hword, dropWhile_seam hword]
  · exact splitSymbol_seam hm c rest

end

/-! ## Lines -/

/-- **What a line spells does not depend on the lines behind it.** -/
theorem lexemes_line {source : List Char} (h : StringsClosed source)
    (behind : List Char) :
    lexemes (source ++ '\n' :: behind) =
      lexemes source ++ .newline :: lexemes behind := by
  unfold StringsClosed at h
  fun_induction lexemes source with
  | case1 =>
      rw [List.nil_append, lexemes]
      rfl
  | case2 c rest ih =>
      rw [List.forall_mem_cons] at h
      have hline : (splitLexeme c rest).1.goesOn (splitLexeme c rest).2 '\n' =
          false := (goesOn_line _ _).trans h.1
      rw [List.cons_append, lexemes, splitLexeme_seam rfl hline, ih h.2]
      rfl

theorem spellings_line {source : List Char} (h : StringsClosed source)
    (behind : List Char) :
    spellings (source ++ '\n' :: behind) =
      spellings source ++ lineBreak :: spellings behind := by
  unfold spellings
  rw [lexemes_line h, List.filterMap_append]
  rfl

theorem tokensFrom_spelling (place : Place) (pieces : List Lexeme) :
    ∃ finish, tokensFrom place pieces =
      (tokensFrom place pieces).dropLast ++ [⟨.endOfInput, "", finish⟩] ∧
      (tokensFrom place pieces).dropLast.map Token.spelling =
        pieces.filterMap Lexeme.token? := by
  induction pieces generalizing place with
  | nil => exact ⟨place, rfl, rfl⟩
  | cons piece rest ih =>
      obtain ⟨finish, hlast, hspelled⟩ := ih (place.after piece)
      rw [tokensFrom]
      cases hpiece : piece.token? with
      | none =>
          rw [List.filterMap_cons_none hpiece]
          exact ⟨finish, hlast, hspelled⟩
      | some spelling =>
          rw [List.filterMap_cons_some hpiece]
          have hne : tokensFrom (place.after piece) rest ≠ [] := by
            rw [hlast]
            exact List.append_ne_nil_of_right_ne_nil _ (List.cons_ne_nil _ _)
          dsimp only
          rw [List.dropLast_cons_of_ne_nil hne, List.map_cons, hspelled]
          exact ⟨finish, congrArg _ hlast, rfl⟩

/-! ## Cursors -/

/-- What is left at a cursor, without the places. -/
def Cursor.ahead (c : Cursor) : List Spelling :=
  c.pending.map Token.spelling

theorem ahead_ofSource (source : String) :
    (Cursor.ofSource source).ahead = spellings source.toList := by
  obtain ⟨_, _, hspelled⟩ := tokensFrom_spelling .start (lexemes source.toList)
  exact hspelled

/-- The class of the first of some tokens. -/
def headKind : List Spelling → TokenKind
  | [] => .endOfInput
  | s :: _ => s.1

/-- What is left behind the ends of lines. -/
def pastBreaks (A : List Spelling) : List Spelling :=
  A.dropWhile fun s => s.1 = .newline

theorem firstKind_eq (c : Cursor) : firstKind c.pending = headKind c.ahead := by
  unfold Cursor.ahead
  cases c.pending <;> rfl

theorem ahead_cons {c : Cursor} {s : Spelling} {A : List Spelling}
    (h : c.ahead = s :: A) :
    ∃ token pending, c.pending = token :: pending ∧ token.spelling = s ∧
      (c.leaving pending).ahead = A :=
  List.map_eq_cons_iff.mp h

theorem ahead_skipNewlines (c : Cursor) :
    c.skipNewlines.ahead = pastBreaks c.ahead := by
  show (c.pending.dropWhile _).map _ = (c.pending.map _).dropWhile _
  rw [List.dropWhile_map]
  rfl

theorem headKind_of_pastBreaks {A B : List Spelling} {s : Spelling}
    (h : pastBreaks A = s :: B) :
    headKind A = s.1 ∨ headKind A = .newline := by
  cases A with
  | nil => cases h
  | cons t rest =>
      by_cases ht : t.1 = .newline
      · exact Or.inr ht
      · unfold pastBreaks at h
        rw [List.dropWhile_cons_of_neg (by simpa using ht)] at h
        cases h
        exact Or.inl rfl

end Barscript.Script

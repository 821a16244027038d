import Barscript.Proofs.Script.Words

/-!
# What the pieces of a source are made of

`Lexeme.Fits` says of each kind of piece which characters it holds and what may
stand behind it. The cut in front of any text gives a piece that fits
(`fits_splitLexeme`), so the pieces of a source fit one behind the other
(`fitting_lexemes`). Nothing is said here of what the pieces have in common
with the source; that they join up to it is `flatMap_text_lexemes`.
-/

namespace Barscript.Script

open Barscript.Text

/-- The text holds no end of a line and stands in front of one, or at the end of
the source. -/
def EndsLine (text behind : List Char) : Prop :=
  '\n' ∉ text ∧ (behind = [] ∨ ∃ more, behind = '\n' :: more)

/-- Whether the text behind two slashes states a version. -/
def StatesVersion (body : List Char) : Prop :=
  ∃ d more, body = pragmaMark ++ d :: more ∧ d.isDigit = true

/-- The texts of numbers: digits with at most one point among them. -/
structure IsNumber (text : List Char) : Prop where
  chars : ∀ c ∈ text, c.isDigit = true ∨ c = '.'
  point : text.count '.' ≤ 1
  digit : ∃ c ∈ text, c.isDigit = true

/-- The texts of operators and punctuation marks. -/
inductive IsSymbol : TokenKind → List Char → Prop where
  | one {c : Char} {kind : TokenKind} (h : oneCharKind? c = some kind) :
      IsSymbol kind [c]
  | two {c d : Char} {kind : TokenKind} (h : twoCharKind? c d = some kind) :
      IsSymbol kind [c, d]

/-- A character that is neither skipped for its own sake nor opens a token in
front of the given text. -/
structure IsStray (c : Char) (behind : List Char) : Prop where
  newline : c ≠ '\n'
  digit : c.isDigit = false
  quote : c ≠ '"' ∧ c ≠ '\''
  word : isWordStart c = false
  one : oneCharKind? c = none
  two : ∀ d more, behind = d :: more → twoCharKind? c d = none

/-- What the characters of a piece are and what may stand behind it. -/
def Lexeme.Fits : Lexeme → List Char → Prop
  | .blank c, _ => c = ' ' ∨ c = '\t' ∨ c = '\r'
  | .newline, _ => True
  | .comment body, behind => EndsLine body behind ∧ ¬ StatesVersion body
  | .pragma digits ignored, behind =>
      digits ≠ [] ∧ (∀ c ∈ digits, c.isDigit = true) ∧ EndsLine ignored behind
  | .number digits, _ => IsNumber digits
  | .string quote _ closed, behind =>
      (quote = '"' ∨ quote = '\'') ∧ (closed = false → behind = [])
  | .word letters, _ =>
      ∃ c more, letters = c :: more ∧ isWordStart c = true ∧
        ∀ d ∈ more, isWordChar d = true
  | .symbol kind spelling, _ => IsSymbol kind spelling
  | .stray c, behind => IsStray c behind

/-! ## Comments -/

theorem endsLine_takeWhile (body : List Char) :
    EndsLine (body.takeWhile (· != '\n')) (body.dropWhile (· != '\n')) := by
  constructor
  · intro h
    have hline := List.all_eq_true.mp List.all_takeWhile _ h
    simp at hline
  · induction body with
    | nil => exact Or.inl rfl
    | cons c rest ih =>
        rw [List.dropWhile_cons]
        split
        · exact ih
        · rename_i hc
          exact Or.inr ⟨rest, by simpa using hc⟩

theorem EndsLine.right {front text behind : List Char}
    (h : EndsLine (front ++ text) behind) : EndsLine text behind :=
  ⟨fun hmem => h.1 (List.mem_append_right _ hmem), h.2⟩

theorem not_statesVersion_of_afterFront?_none {line : List Char}
    (h : afterFront? pragmaMark line = none) : ¬ StatesVersion line := by
  rintro ⟨d, more, rfl, _⟩
  unfold afterFront? at h
  rw [if_pos (List.isPrefixOf_iff_prefix.mpr (List.prefix_append _ _))] at h
  cases h

theorem fits_splitComment (body : List Char) :
    (splitComment body).1.Fits (splitComment body).2 := by
  have hline := endsLine_takeWhile body
  unfold splitComment
  dsimp only
  split
  · rename_i hmark
    exact ⟨hline, not_statesVersion_of_afterFront?_none hmark⟩
  · rename_i marked hmark
    have happ := eq_append_of_afterFront? hmark
    split
    · rename_i hempty
      refine ⟨hline, ?_⟩
      rintro ⟨d, more, hstates, hdigit⟩
      rw [happ] at hstates
      rw [List.append_cancel_left hstates, List.takeWhile_cons_of_pos hdigit] at hempty
      cases hempty
    · rename_i hne
      rw [happ, ← List.takeWhile_append_dropWhile (p := Char.isDigit) (l := marked)]
        at hline
      refine ⟨by simpa using hne, ?_, hline.right.right⟩
      exact fun c hc => List.all_eq_true.mp List.all_takeWhile c hc

/-! ## Numbers -/

theorem point_splitNumber (seen : Bool) (text : List Char) :
    (splitNumber seen text).1.count '.' ≤ if seen then 0 else 1 := by
  induction text generalizing seen with
  | nil => exact Nat.zero_le _
  | cons d rest ih =>
      rw [splitNumber]
      split
      · rename_i hdigit
        have hne : d ≠ '.' := by
          rintro rfl
          cases hdigit
        rw [List.count_cons_of_ne hne]
        exact ih seen
      · split
        · rename_i hpoint
          obtain ⟨rfl, rfl⟩ := hpoint
          have hrest := ih true
          rw [if_pos rfl] at hrest
          rw [List.count_cons_self]
          exact Nat.succ_le_succ hrest
        · exact Nat.zero_le _

/-- A digit, or a point in front of a digit, begins a number. -/
theorem isNumber_splitNumber {c : Char} {rest : List Char}
    (h : c.isDigit = true ∨ c = '.' ∧ startsWithDigit rest = true) :
    IsNumber (splitNumber false (c :: rest)).1 := by
  refine ⟨fun _ => mem_splitNumber, point_splitNumber false _, ?_⟩
  rcases h with hdigit | ⟨rfl, hrest⟩
  · rw [splitNumber_cons c rest (Or.inl hdigit)]
    exact ⟨c, List.mem_cons_self .., hdigit⟩
  · cases rest with
    | nil => cases hrest
    | cons d more =>
        have hdigit : d.isDigit = true := hrest
        rw [splitNumber_cons '.' (d :: more) (Or.inr rfl), splitNumber.eq_def]
        dsimp only
        rw [if_pos hdigit]
        exact ⟨d, List.mem_cons_of_mem _ (List.mem_cons_self ..), hdigit⟩

/-- A number is made of digits, or of digits around a point. -/
theorem IsNumber.parts {text : List Char} (h : IsNumber text) :
    (text ≠ [] ∧ ∀ c ∈ text, c.isDigit = true) ∨
      ∃ whole fraction, text = whole ++ '.' :: fraction ∧
        whole ++ fraction ≠ [] ∧ (∀ c ∈ whole, c.isDigit = true) ∧
        ∀ c ∈ fraction, c.isDigit = true := by
  have hdigits : ∀ part : List Char, (∀ c ∈ part, c ∈ text) → '.' ∉ part →
      ∀ c ∈ part, c.isDigit = true := by
    intro part hpart hpoint c hc
    refine (h.chars c (hpart c hc)).resolve_right ?_
    rintro rfl
    exact hpoint hc
  obtain ⟨d, hd, hdigit⟩ := h.digit
  by_cases hpoint : '.' ∈ text
  · obtain ⟨whole, fraction, rfl⟩ := List.append_of_mem hpoint
    -- There is no second point.
    have hcount := h.point
    rw [List.count_append, List.count_cons_self] at hcount
    have hwhole : '.' ∉ whole := List.count_eq_zero.mp (by omega)
    have hfraction : '.' ∉ fraction := List.count_eq_zero.mp (by omega)
    refine Or.inr ⟨whole, fraction, rfl, ?_, ?_, ?_⟩
    · refine List.ne_nil_of_mem (a := d) ?_
      rcases List.mem_append.mp hd with hd | hd
      · exact List.mem_append_left _ hd
      · rcases List.mem_cons.mp hd with rfl | hd
        · cases hdigit
        · exact List.mem_append_right _ hd
    · exact hdigits whole (fun c hc => List.mem_append_left _ hc) hwhole
    · exact hdigits fraction (fun c hc =>
        List.mem_append_right _ (List.mem_cons_of_mem _ hc)) hfraction
  · exact Or.inl ⟨List.ne_nil_of_mem hd, hdigits text (fun _ => id) hpoint⟩

/-! ## All pieces -/

theorem fits_splitSymbol {c : Char} {rest : List Char}
    (h : oneCharKind? c = none → (∀ d more, rest = d :: more → twoCharKind? c d = none) →
      IsStray c rest) :
    (splitSymbol c rest).1.Fits (splitSymbol c rest).2 := by
  unfold splitSymbol
  cases rest with
  | nil =>
      dsimp only
      cases hone : oneCharKind? c with
      | some kind => exact IsSymbol.one hone
      | none => exact h hone nofun
  | cons d more =>
      dsimp only
      cases htwo : twoCharKind? c d with
      | some kind => exact IsSymbol.two htwo
      | none =>
          cases hone : oneCharKind? c with
          | some kind => exact IsSymbol.one hone
          | none =>
              refine h hone ?_
              intro d' more' hsame
              cases hsame
              exact htwo

/-- **Each cut gives a piece that fits.** -/
theorem fits_splitLexeme (c : Char) (rest : List Char) :
    (splitLexeme c rest).1.Fits (splitLexeme c rest).2 := by
  unfold splitLexeme
  split_ifs with hspace hcomment hnewline hnumber hstring hword
  · show c = ' ' ∨ c = '\t' ∨ c = '\r'
    simpa [isSpace, or_assoc] using hspace
  · exact fits_splitComment rest.tail
  · exact trivial
  · refine isNumber_splitNumber ?_
    simpa using hnumber
  · -- Nothing is left behind an open string.
    split
    · exact ⟨hstring, fun _ => rfl⟩
    · exact ⟨hstring, nofun⟩
  · refine ⟨c, _, rfl, hword, ?_⟩
    exact fun d hd => List.all_eq_true.mp List.all_takeWhile d hd
  · refine fits_splitSymbol fun hone htwo => ⟨hnewline, ?_, ?_, ?_, hone, htwo⟩
    · simp only [Bool.or_eq_true, not_or] at hnumber
      simpa using hnumber.1
    · simpa using hstring
    · simpa using hword

/-- The pieces fit one behind the other. -/
def Fitting : List Lexeme → Prop
  | [] => True
  | piece :: more => piece.Fits (more.flatMap Lexeme.text) ∧ Fitting more

/-- **The pieces of a source fit one behind the other.** -/
theorem fitting_lexemes (source : List Char) : Fitting (lexemes source) := by
  fun_induction lexemes source with
  | case1 => exact trivial
  | case2 c rest ih =>
      refine ⟨?_, ih⟩
      rw [flatMap_text_lexemes]
      exact fits_splitLexeme c rest

end Barscript.Script

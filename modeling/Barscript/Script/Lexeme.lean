import Barscript.Script.Token
import Barscript.Text.Letter

/-!
# Lexemes

`lexemes` cuts a source into consecutive pieces: the spellings of tokens and what lies between
them (blanks, comments, characters that mean nothing).  Nothing is lost and nothing invented: the
texts of the pieces, joined, are the source (`flatMap_text_lexemes`).  A piece is always as long
as its kind allows.

`tokens` then walks over the pieces with a running place and keeps those that are tokens.  Only a
newline piece starts a new line; a string that holds newlines counts them as characters.
-/

namespace Barscript.Script

open Barscript.Text

/-- A piece of a source. -/
inductive Lexeme where
  /-- A space, tab or carriage return. -/
  | blank (c : Char)
  /-- The end of a line. -/
  | newline
  /-- Two slashes and the rest of the line. -/
  | comment (body : List Char)
  /-- A comment that states the language version; the rest of its line is ignored. -/
  | pragma (digits ignored : List Char)
  /-- A number. -/
  | number (digits : List Char)
  /-- A string, between quotes; at the end of the source the closing quote may be missing. -/
  | string (quote : Char) (body : List Char) (closed : Bool)
  /-- A word. -/
  | word (letters : List Char)
  /-- An operator or punctuation mark. -/
  | symbol (kind : TokenKind) (spelling : List Char)
  /-- A character that opens no token. -/
  | stray (c : Char)
deriving DecidableEq, Repr

/-- What follows the slashes of a version pragma, up to its digits. -/
def pragmaMark : List Char :=
  ['@', 'v', 'e', 'r', 's', 'i', 'o', 'n', '=']

/-- The characters of a piece. -/
def Lexeme.text : Lexeme → List Char
  | .blank c => [c]
  | .newline => ['\n']
  | .comment body => '/' :: '/' :: body
  | .pragma digits ignored => '/' :: '/' :: pragmaMark ++ digits ++ ignored
  | .number digits => digits
  | .string quote body closed => quote :: body ++ (if closed then [quote] else [])
  | .word letters => letters
  | .symbol _ spelling => spelling
  | .stray c => [c]

/-- The kind and value of the token that a piece spells, if it spells one. -/
def Lexeme.token? : Lexeme → Option (TokenKind × String)
  | .blank _ => none
  | .newline => some (.newline, "\n")
  | .comment _ => none
  | .pragma digits _ => some (.versionPragma, String.ofList digits)
  | .number digits => some (.number, String.ofList digits)
  | .string _ body _ => some (.string, String.ofList body)
  | .word letters => some (TokenKind.ofWord (String.ofList letters), String.ofList letters)
  | .symbol kind spelling => some (kind, String.ofList spelling)
  | .stray _ => none

/-! ## Cutting off one piece -/

/-- A blank inside a line. -/
def isSpace (c : Char) : Bool :=
  c == ' ' || c == '\t' || c == '\r'

/-- Digits with at most one point (none when one was seen already), and the rest. -/
def splitNumber (pointSeen : Bool) : List Char → List Char × List Char
  | [] => ([], [])
  | c :: rest =>
    if c.isDigit then
      let (digits, left) := splitNumber pointSeen rest
      (c :: digits, left)
    else if c = '.' ∧ pointSeen = false then
      let (digits, left) := splitNumber true rest
      (c :: digits, left)
    else ([], c :: rest)

/-- The body of a string up to its closing quote or the end of the source, and the rest from the
quote on.  A backslash takes the next character with it. -/
def splitString (quote : Char) : List Char → List Char × List Char
  | [] => ([], [])
  | c :: rest =>
    if c = quote then ([], c :: rest)
    else if c = '\\' then
      match rest with
      | [] => ([c], [])
      | d :: rest =>
        let (body, left) := splitString quote rest
        (c :: d :: body, left)
    else
      let (body, left) := splitString quote rest
      (c :: body, left)

/-- The operators of two characters. -/
def twoCharKind? : Char → Char → Option TokenKind
  | ':', '=' => some .colonAssign
  | '=', '=' => some .equal
  | '!', '=' => some .notEqual
  | '>', '=' => some .greaterEqual
  | '<', '=' => some .lessEqual
  | '=', '>' => some .arrow
  | _, _ => none

/-- The operators and marks of one character. -/
def oneCharKind? : Char → Option TokenKind
  | '+' => some .plus
  | '-' => some .minus
  | '*' => some .star
  | '/' => some .slash
  | '%' => some .percent
  | '=' => some .assign
  | '>' => some .greater
  | '<' => some .less
  | '(' => some .leftParen
  | ')' => some .rightParen
  | '[' => some .leftBracket
  | ']' => some .rightBracket
  | ',' => some .comma
  | '.' => some .dot
  | ':' => some .colon
  | '?' => some .question
  | _ => none

/-- The text behind `front`, if it starts with it. -/
def afterFront? (front text : List Char) : Option (List Char) :=
  if front.isPrefixOf text then some (text.drop front.length) else none

/-- The piece that starts with two slashes, given the text behind them. -/
def splitComment (body : List Char) : Lexeme × List Char :=
  let line := body.takeWhile (· != '\n')
  let left := body.dropWhile (· != '\n')
  match afterFront? pragmaMark line with
  | none => (.comment line, left)
  | some marked =>
    let digits := marked.takeWhile Char.isDigit
    if digits.isEmpty then (.comment line, left)
    else (.pragma digits (marked.dropWhile Char.isDigit), left)

/-- The piece that starts with an operator character, or a stray character. -/
def splitSymbol (c : Char) (rest : List Char) : Lexeme × List Char :=
  let one := match oneCharKind? c with
    | some kind => (.symbol kind [c], rest)
    | none => (.stray c, rest)
  match rest with
  | [] => one
  | d :: more =>
    match twoCharKind? c d with
    | some kind => (.symbol kind [c, d], more)
    | none => one

/-- Whether the text starts with a digit. -/
def startsWithDigit : List Char → Bool
  | [] => false
  | c :: _ => c.isDigit

/-- The first piece of a source that starts with `c`, and the source behind it. -/
def splitLexeme (c : Char) (rest : List Char) : Lexeme × List Char :=
  if isSpace c then (.blank c, rest)
  -- A comment comes before the operator that starts with the same slash.
  else if c = '/' ∧ rest.head? = some '/' then splitComment rest.tail
  else if c = '\n' then (.newline, rest)
  else if c.isDigit || (c == '.' && startsWithDigit rest) then
    let (digits, left) := splitNumber false (c :: rest)
    (.number digits, left)
  else if c = '"' ∨ c = '\'' then
    match splitString c rest with
    -- What is left starts with the closing quote, unless the source has ended.
    | (body, []) => (.string c body false, [])
    | (body, _ :: left) => (.string c body true, left)
  else if isWordStart c then
    (.word (c :: rest.takeWhile isWordChar), rest.dropWhile isWordChar)
  else splitSymbol c rest

/-! ## Nothing is lost -/

theorem splitNumber_append (seen : Bool) (s : List Char) :
    (splitNumber seen s).1 ++ (splitNumber seen s).2 = s := by
  induction s generalizing seen with
  | nil => rfl
  | cons c rest ih =>
    unfold splitNumber
    split
    · simpa using ih seen
    · split
      · simpa using ih true
      · rfl

/-- A digit, or a point where none was seen yet, is taken. -/
theorem splitNumber_cons (c : Char) (rest : List Char) (h : c.isDigit = true ∨ c = '.') :
    splitNumber false (c :: rest) =
      (c :: (splitNumber (!c.isDigit) rest).1, (splitNumber (!c.isDigit) rest).2) := by
  rw [splitNumber]
  by_cases hc : c.isDigit = true
  · simp [hc]
  · simp [h.resolve_left hc]

theorem splitString_append (quote : Char) (s : List Char) :
    (splitString quote s).1 ++ (splitString quote s).2 = s := by
  fun_induction splitString quote s <;> simp_all

/-- What is left behind the body of a string is empty or starts with the closing quote. -/
theorem splitString_rest (quote : Char) (s : List Char) :
    (splitString quote s).2 = [] ∨ ∃ left, (splitString quote s).2 = quote :: left := by
  fun_induction splitString quote s <;> simp_all

theorem takeWhile_append_dropWhile (p : Char → Bool) (s : List Char) :
    s.takeWhile p ++ s.dropWhile p = s :=
  List.takeWhile_append_dropWhile

theorem eq_append_of_afterFront? {front text marked : List Char}
    (h : afterFront? front text = some marked) : text = front ++ marked := by
  unfold afterFront? at h
  split at h
  · rename_i hp
    obtain ⟨t, rfl⟩ := List.isPrefixOf_iff_prefix.1 hp
    simp_all
  · simp at h

theorem splitComment_append (body : List Char) :
    (splitComment body).1.text ++ (splitComment body).2 = '/' :: '/' :: body := by
  have hline := takeWhile_append_dropWhile (· != '\n') body
  unfold splitComment
  simp only
  split
  · simp [Lexeme.text, hline]
  · rename_i marked hm
    have hmark := eq_append_of_afterFront? hm
    split
    · simp [Lexeme.text, hline]
    · have hdigits := takeWhile_append_dropWhile Char.isDigit marked
      simp only [Lexeme.text, List.cons_append, List.append_assoc]
      rw [← List.append_assoc (marked.takeWhile _), hdigits, ← List.append_assoc, ← hmark, hline]

theorem splitSymbol_append (c : Char) (rest : List Char) :
    (splitSymbol c rest).1.text ++ (splitSymbol c rest).2 = c :: rest := by
  unfold splitSymbol
  cases rest with
  | nil => cases oneCharKind? c <;> simp [Lexeme.text]
  | cons d more =>
    simp only
    cases twoCharKind? c d with
    | some kind => simp [Lexeme.text]
    | none => cases oneCharKind? c <;> simp [Lexeme.text]

/-- **One cut loses nothing.** -/
theorem splitLexeme_append (c : Char) (rest : List Char) :
    (splitLexeme c rest).1.text ++ (splitLexeme c rest).2 = c :: rest := by
  unfold splitLexeme
  split
  · simp [Lexeme.text]
  split
  · rename_i h
    obtain ⟨rfl, h⟩ := h
    cases rest with
    | nil => simp at h
    | cons d more =>
      simp only [List.head?_cons, Option.some.injEq] at h
      subst h
      exact splitComment_append more
  split
  · rename_i h
    subst h
    rfl
  split
  · exact splitNumber_append false (c :: rest)
  split
  · have happ := splitString_append c rest
    have hrest := splitString_rest c rest
    split
    · rename_i body heq
      simp_all [Lexeme.text]
    · rename_i body d left heq
      obtain h | ⟨left', h⟩ := hrest
      · simp [heq] at h
      · simp only [heq, List.cons.injEq] at h
        simp_all [Lexeme.text]
  split
  · simp [Lexeme.text]
  · exact splitSymbol_append c rest

/-- No piece is empty. -/
theorem splitLexeme_text_ne_nil (c : Char) (rest : List Char) :
    (splitLexeme c rest).1.text ≠ [] := by
  unfold splitLexeme
  split
  · simp [Lexeme.text]
  split
  · unfold splitComment
    simp only
    split
    · simp [Lexeme.text]
    · split <;> simp [Lexeme.text]
  split
  · simp [Lexeme.text]
  split
  · rename_i h
    have hc : c.isDigit = true ∨ c = '.' := by
      simp only [Bool.or_eq_true, Bool.and_eq_true, beq_iff_eq] at h
      exact h.imp_right And.left
    simp [Lexeme.text, splitNumber_cons c rest hc]
  split
  · split <;> simp [Lexeme.text]
  split
  · simp [Lexeme.text]
  · unfold splitSymbol
    cases rest with
    | nil => cases oneCharKind? c <;> simp [Lexeme.text]
    | cons d more =>
      simp only
      cases twoCharKind? c d <;> cases oneCharKind? c <;> simp [Lexeme.text]

/-- What is left behind a piece is shorter. -/
theorem splitLexeme_length (c : Char) (rest : List Char) :
    (splitLexeme c rest).2.length < (c :: rest).length := by
  have happ := congrArg List.length (splitLexeme_append c rest)
  have hne := List.length_pos_iff.2 (splitLexeme_text_ne_nil c rest)
  rw [List.length_append] at happ
  omega

/-! ## The pieces and the tokens of a source -/

/-- The pieces of a source, in order. -/
def lexemes : List Char → List Lexeme
  | [] => []
  | c :: rest => (splitLexeme c rest).1 :: lexemes (splitLexeme c rest).2
termination_by source => source.length
decreasing_by exact splitLexeme_length c rest

/-- **The pieces of a source, joined, are the source.** -/
theorem flatMap_text_lexemes (source : List Char) :
    (lexemes source).flatMap Lexeme.text = source := by
  fun_induction lexemes source with
  | case1 => rfl
  | case2 c rest ih =>
    rw [List.flatMap_cons, ih, splitLexeme_append]

/-- The place behind a piece. -/
def Place.after (place : Place) : Lexeme → Place
  | .newline => ⟨place.line + 1, 1⟩
  | piece => ⟨place.line, place.column + piece.text.length⟩

/-- The tokens of a sequence of pieces whose first piece stands at `place`. -/
def tokensFrom (place : Place) : List Lexeme → List Token
  | [] => [⟨.endOfInput, "", place⟩]
  | piece :: rest =>
    match piece.token? with
    | some (kind, value) => ⟨kind, value, place⟩ :: tokensFrom (place.after piece) rest
    | none => tokensFrom (place.after piece) rest

/-- The tokens of a source: every source has some, and the last one marks the end of input. -/
def tokens (source : String) : List Token :=
  tokensFrom .start (lexemes source.toList)

end Barscript.Script

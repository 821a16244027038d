import Barscript.Proofs.Decimal.Sign
import Barscript.Proofs.Script.Spelling
import Barscript.Script.Grammar

/-!
# Words, numbers and marks

What the class of a token says of its characters (`Lexed`), and back: a piece
of text that may be read as one token is read as that token, if the text behind
it cannot go on with it (`Breaks`).
-/

namespace Barscript.Script

open Barscript.Text Barscript.Decimal

/-! ## Tokens that were read -/

/-- A word of a script. -/
def IsWord (name : String) : Prop :=
  ∃ c rest, name.toList = c :: rest ∧ isWordStart c = true ∧
    ∀ d ∈ rest, isWordChar d = true

/-- The classes of words that may be names. -/
def TokenKind.isNaming : TokenKind → Bool
  | .identifier | .keyword | .builtinFunction | .builtinVariable => true
  | _ => false

/-- What the class of a token says of its value. -/
structure Lexed (s : Spelling) : Prop where
  word : s.1.isNaming = true → IsWord s.2 ∧ s.1 = .ofWord s.2
  number : s.1 = .number → ∀ c ∈ s.2.toList, c.isDigit = true ∨ c = '.'

/-- A class of neither words nor numbers says nothing. -/
theorem lexed_of_mark {s : Spelling}
    (h : s.1.isNaming = false ∧ s.1 ≠ .number) : Lexed s := by
  constructor
  · intro hword
    rw [h.1] at hword
    cases hword
  · exact fun hnumber => absurd hnumber h.2

theorem mem_splitNumber {seen : Bool} {text : List Char} {c : Char}
    (h : c ∈ (splitNumber seen text).1) : c.isDigit = true ∨ c = '.' := by
  induction text generalizing seen with
  | nil => cases h
  | cons d rest ih =>
      rw [splitNumber] at h
      split at h
      · rename_i hdigit
        rcases List.mem_cons.mp h with rfl | h
        · exact Or.inl hdigit
        · exact ih h
      · split at h
        · rename_i hpoint
          rcases List.mem_cons.mp h with rfl | h
          · exact Or.inr hpoint.1
          · exact ih h
        · cases h

theorem ofWord_ne_number (word : String) : TokenKind.ofWord word ≠ .number := by
  unfold TokenKind.ofWord
  split_ifs <;> nofun

theorem lexed_splitSymbol {c : Char} {rest : List Char} {s : Spelling}
    (h : (splitSymbol c rest).1.token? = some s) : Lexed s := by
  have hone : ∀ kind, oneCharKind? c = some kind →
      kind.isNaming = false ∧ kind ≠ .number := by
    intro kind hkind
    unfold oneCharKind? at hkind
    split at hkind <;> cases hkind <;> exact ⟨rfl, nofun⟩
  have htwo : ∀ d kind, twoCharKind? c d = some kind →
      kind.isNaming = false ∧ kind ≠ .number := by
    intro d kind hkind
    unfold twoCharKind? at hkind
    split at hkind <;> cases hkind <;> exact ⟨rfl, nofun⟩
  unfold splitSymbol at h
  dsimp only at h
  split at h
  · cases hkind : oneCharKind? c with
    | none =>
        rw [hkind] at h
        cases h
    | some kind =>
        rw [hkind] at h
        cases h
        exact lexed_of_mark (hone kind hkind)
  · rename_i d more
    cases hkind : twoCharKind? c d with
    | some kind =>
        rw [hkind] at h
        cases h
        exact lexed_of_mark (htwo d kind hkind)
    | none =>
        rw [hkind] at h
        cases hkind : oneCharKind? c with
        | none =>
            rw [hkind] at h
            cases h
        | some kind =>
            rw [hkind] at h
            cases h
            exact lexed_of_mark (hone kind hkind)

theorem lexed_splitComment {body : List Char} {s : Spelling}
    (h : (splitComment body).1.token? = some s) : Lexed s := by
  unfold splitComment at h
  dsimp only at h
  split at h
  · cases h
  · split at h
    · cases h
    · cases h
      exact lexed_of_mark ⟨rfl, nofun⟩

theorem lexed_splitLexeme {c : Char} {rest : List Char} {s : Spelling}
    (h : (splitLexeme c rest).1.token? = some s) : Lexed s := by
  unfold splitLexeme at h
  split_ifs at h with hspace hcomment hnewline hnumber hstring hword
  · cases h
  · exact lexed_splitComment h
  · cases h
    exact lexed_of_mark ⟨rfl, nofun⟩
  · have hs : (TokenKind.number, String.ofList
        (splitNumber false (c :: rest)).1) = s := Option.some.inj h
    rw [← hs]
    constructor
    · exact nofun
    · intro _ d hd
      rw [String.toList_ofList] at hd
      exact mem_splitNumber hd
  · split at h <;> cases h <;> exact lexed_of_mark ⟨rfl, nofun⟩
  · cases h
    constructor
    · intro _
      refine ⟨⟨c, _, String.toList_ofList, hword, ?_⟩, rfl⟩
      exact fun d hd => List.all_eq_true.mp List.all_takeWhile d hd
    · exact fun hkind => absurd hkind (ofWord_ne_number _)
  · exact lexed_splitSymbol h

theorem lexed_spellings {source : List Char} :
    ∀ s ∈ spellings source, Lexed s := by
  unfold spellings
  fun_induction lexemes source with
  | case1 =>
      intro s hs
      cases hs
  | case2 c rest ih =>
      intro s hs
      obtain ⟨piece, hpiece, hs⟩ := List.mem_filterMap.mp hs
      rcases List.mem_cons.mp hpiece with rfl | hpiece
      · exact lexed_splitLexeme hs
      · exact ih s (List.mem_filterMap.mpr ⟨piece, hpiece, hs⟩)

/-- **The tokens of a source are lexed.** -/
theorem lexed_tokens {source : String} {token : Token}
    (h : token ∈ (tokens source).dropLast) : Lexed token.spelling := by
  apply @lexed_spellings source.toList
  rw [← ahead_ofSource source]
  exact List.mem_map_of_mem h

/-! ## Reading a text again -/

/-- The text does not go on with a word or a number in front of it. -/
def Breaks (rest : List Char) : Prop :=
  ∀ c ∈ rest.head?, isWordChar c = false

/-- The text between two double quotes: none that ends the string before, and
no backslash that would take the closing one with it. -/
def quotable : List Char → Bool
  | [] => true
  | '\\' :: [] => false
  | '\\' :: _ :: rest => quotable rest
  | c :: rest => c != '"' && quotable rest

theorem breaks_cons {c : Char} (h : isWordChar c = false)
    (rest : List Char) : Breaks (c :: rest) := by
  rintro d hd
  cases hd
  exact h

theorem spellings_cons (c : Char) (rest : List Char) :
    spellings (c :: rest) = (splitLexeme c rest).1.token?.toList ++
      spellings (splitLexeme c rest).2 := by
  unfold spellings
  rw [lexemes, List.filterMap_cons]
  cases (splitLexeme c rest).1.token? <;> rfl

theorem spellings_blank (rest : List Char) :
    spellings (' ' :: rest) = spellings rest := by
  rw [spellings_cons]
  rfl

theorem spellings_colon (rest : List Char) :
    spellings (':' :: ' ' :: rest) = (.colon, ":") :: spellings (' ' :: rest) := by
  rw [spellings_cons]
  rfl

/-- A mark that starts no comment and no number. -/
theorem splitLexeme_mark {c : Char} {kind : TokenKind}
    (h : oneCharKind? c = some kind) (hslash : c ≠ '/') (hpoint : c ≠ '.')
    (rest : List Char) : splitLexeme c rest = splitSymbol c rest := by
  unfold oneCharKind? at h
  split at h <;> first | rfl | exact absurd rfl ‹_› | cases h

/-- A mark is read as such if no operator of two characters starts here. -/
theorem spellings_mark {c : Char} {kind : TokenKind}
    (h : oneCharKind? c = some kind) (hslash : c ≠ '/') (hpoint : c ≠ '.')
    {rest : List Char} (htwo : ∀ d ∈ rest.head?, twoCharKind? c d = none) :
    spellings (c :: rest) = (kind, String.ofList [c]) :: spellings rest := by
  rw [spellings_cons, splitLexeme_mark h hslash hpoint]
  unfold splitSymbol
  rw [h]
  cases rest with
  | nil => rfl
  | cons d more =>
      dsimp only
      rw [htwo d rfl]
      rfl

/-- The marks that no operator of two characters starts with. -/
def loneKind? : Char → Option TokenKind
  | '(' => some .leftParen
  | ')' => some .rightParen
  | '[' => some .leftBracket
  | ']' => some .rightBracket
  | ',' => some .comma
  | '?' => some .question
  | '-' => some .minus
  | _ => none

theorem spellings_lone {c : Char} {kind : TokenKind}
    (h : loneKind? c = some kind) (rest : List Char) :
    spellings (c :: rest) = (kind, String.ofList [c]) :: spellings rest := by
  unfold loneKind? at h
  split at h <;> cases h <;>
    exact spellings_mark rfl (by decide) (by decide) fun _ _ => rfl

theorem toNat_of_isDigit {c : Char} (h : c.isDigit = true) :
    48 ≤ c.toNat ∧ c.toNat ≤ 57 :=
  Char.isDigit_iff_toNat.mp h

theorem isWordChar_of_isDigit {c : Char} (h : c.isDigit = true) :
    isWordChar c = true := by
  have hrange := toNat_of_isDigit h
  have hnumeral : isNumeral c = true := by
    unfold isNumeral
    rw [if_pos (by omega)]
    exact h
  unfold isWordChar
  rw [hnumeral, Bool.or_true]
  rfl

/-- No word starts with a digit. -/
theorem isWordStart_of_isDigit {c : Char} (h : c.isDigit = true) :
    isWordStart c = false := by
  have hrange := toNat_of_isDigit h
  have halpha : c.isAlpha = false := by
    show (decide (65 ≤ c.val ∧ c.val ≤ 90) ||
      (decide (97 ≤ c.val) && decide (c.val ≤ 122))) = false
    simp only [UInt32.le_iff_toNat_le, Bool.or_eq_false_iff,
      Bool.and_eq_false_iff, decide_eq_false_iff_not]
    show ¬ (65 ≤ c.toNat ∧ c.toNat ≤ 90) ∧
      (¬ 97 ≤ c.toNat ∨ ¬ c.toNat ≤ 122)
    omega
  have hunderscore : (c == '_') = false := by
    rw [beq_eq_false_iff_ne]
    rintro rfl
    cases h
  unfold isWordStart isLetter
  rw [if_pos (by omega), halpha, hunderscore]
  rfl

theorem Breaks.isDigit {rest : List Char} (h : Breaks rest) :
    ∀ c ∈ rest.head?, c.isDigit = false := by
  intro c hc
  cases hdigit : c.isDigit with
  | false => rfl
  | true =>
      have hword := isWordChar_of_isDigit hdigit
      rw [h c hc] at hword
      cases hword

/-- A word is read up to its end. -/
theorem spellings_word {name : String} (h : IsWord name) {rest : List Char}
    (hrest : Breaks rest) :
    spellings (name.toList ++ rest) =
      (.ofWord name, name) :: spellings rest := by
  obtain ⟨c, letters, hname, hc, hletters⟩ := h
  have hne : ∀ d : Char, isWordStart d = false → c ≠ d := by
    rintro d hd rfl
    rw [hc] at hd
    cases hd
  have hdigit : c.isDigit = false := by
    cases hdigit : c.isDigit with
    | false => rfl
    | true =>
        rw [isWordStart_of_isDigit hdigit] at hc
        cases hc
  have hend : rest.takeWhile isWordChar = [] ∧
      rest.dropWhile isWordChar = rest := by
    cases rest with
    | nil => exact ⟨rfl, rfl⟩
    | cons d more =>
        have hd := hrest d rfl
        rw [List.takeWhile_cons, List.dropWhile_cons, hd]
        exact ⟨rfl, rfl⟩
  have hsplit : splitLexeme c (letters ++ rest) =
      (.word (c :: letters), rest) := by
    have hspace : isSpace c = false := by
      unfold isSpace
      simp [hne ' ' (by decide), hne '\t' (by decide), hne '\r' (by decide)]
    have hpoint : (c == '.') = false :=
      beq_eq_false_iff_ne.mpr (hne '.' (by decide))
    unfold splitLexeme
    rw [if_neg (by rw [hspace]; decide),
      if_neg fun h => hne '/' (by decide) h.1,
      if_neg (hne '\n' (by decide)),
      if_neg (by rw [hdigit, hpoint]; nofun),
      if_neg (by
        rintro (h | h)
        · exact hne '"' (by decide) h
        · exact hne '\'' (by decide) h),
      if_pos hc, List.takeWhile_append_of_pos hletters,
      List.dropWhile_append_of_pos hletters, hend.1, hend.2, List.append_nil]
  have hvalue : String.ofList (c :: letters) = name := by
    rw [← hname, String.ofList_toList]
  rw [hname, List.cons_append, spellings_cons, hsplit]
  show (TokenKind.ofWord (String.ofList (c :: letters)),
    String.ofList (c :: letters)) :: spellings rest = _
  rw [hvalue]

/-- A word that is written out. -/
theorem isWord_ofList {c : Char} {letters : List Char}
    (hc : isWordStart c = true) (hletters : letters.all isWordChar = true) :
    IsWord (String.ofList (c :: letters)) :=
  ⟨c, letters, String.toList_ofList, hc, List.all_eq_true.mp hletters⟩

theorem spellings_letters {c : Char} {letters : List Char}
    (hc : isWordStart c = true) (hletters : letters.all isWordChar = true)
    {rest : List Char} (hrest : Breaks rest) :
    spellings (c :: letters ++ rest) =
      (.ofWord (String.ofList (c :: letters)), String.ofList (c :: letters)) ::
        spellings rest := by
  have hword := spellings_word (isWord_ofList hc hletters) hrest
  rwa [String.toList_ofList] at hword

theorem splitNumber_digits {digits : List Char}
    (h : ∀ c ∈ digits, c.isDigit = true) (seen : Bool) (rest : List Char) :
    splitNumber seen (digits ++ rest) =
      (digits ++ (splitNumber seen rest).1, (splitNumber seen rest).2) := by
  induction digits with
  | nil => rfl
  | cons c digits ih =>
      rw [List.forall_mem_cons] at h
      rw [List.cons_append, splitNumber, if_pos h.1, ih h.2]
      rfl

theorem splitNumber_breaks {rest : List Char} (h : Breaks rest)
    (seen : Bool) : splitNumber seen rest = ([], rest) := by
  cases rest with
  | nil => rfl
  | cons c rest =>
      have hpoint : c ≠ '.' := by
        rintro rfl
        cases h '.' rfl
      rw [splitNumber, if_neg (by rw [h.isDigit c rfl]; decide),
        if_neg fun hc => hpoint hc.1]

/-- A number is read up to its end. -/
theorem spellings_number {text : List Char} (h : NumberText text)
    {rest : List Char} (hrest : Breaks rest) :
    spellings (text ++ rest) =
      (.number, String.ofList text) :: spellings rest := by
  have hsplit : splitNumber false (text ++ rest) = (text, rest) := by
    cases h with
    | whole _ hdigits =>
        rw [splitNumber_digits hdigits, splitNumber_breaks hrest,
          List.append_nil]
    | @pointed digits fraction _ hdigits hfraction =>
        rw [List.append_assoc, splitNumber_digits hdigits, List.cons_append,
          splitNumber, if_neg (by decide), if_pos ⟨rfl, rfl⟩,
          splitNumber_digits hfraction, splitNumber_breaks hrest,
          List.append_nil]
  obtain ⟨c, more, rfl, hdigit⟩ := h.first
  have hne : ∀ d : Char, d.isDigit = false → c ≠ d := by
    rintro d hd rfl
    rw [hdigit] at hd
    cases hd
  have hspace : isSpace c = false := by
    unfold isSpace
    simp [hne ' ' (by decide), hne '\t' (by decide), hne '\r' (by decide)]
  have hlexeme : splitLexeme c (more ++ rest) =
      (.number (c :: more), rest) := by
    unfold splitLexeme
    rw [if_neg (by rw [hspace]; decide),
      if_neg fun h => hne '/' (by decide) h.1,
      if_neg (hne '\n' (by decide)), if_pos (by rw [hdigit]; rfl)]
    rw [← List.cons_append, hsplit]
  rw [List.cons_append, spellings_cons, hlexeme]
  rfl

theorem splitString_quotable {body : List Char} (h : quotable body = true)
    (rest : List Char) :
    splitString '"' (body ++ '"' :: rest) = (body, '"' :: rest) := by
  fun_induction quotable body with
  | case1 =>
      rw [List.nil_append, splitString.eq_def]
      rfl
  | case2 => cases h
  | case3 d more ih =>
      rw [List.cons_append, List.cons_append,
        splitString_escape (by decide), ih h]
  | case4 c more hnil hescape ih =>
      rw [Bool.and_eq_true, bne_iff_ne] at h
      have hplain : c ≠ '\\' := by
        rintro rfl
        cases more with
        | nil => exact hnil rfl rfl
        | cons d more => exact hescape d more rfl rfl
      rw [List.cons_append, splitString_plain h.1 hplain, ih h.2]

/-- A text is read up to its closing quote. -/
theorem spellings_text {body : List Char} (h : quotable body = true)
    (rest : List Char) :
    spellings ('"' :: (body ++ '"' :: rest)) =
      (.string, String.ofList body) :: spellings rest := by
  have hlexeme : splitLexeme '"' (body ++ '"' :: rest) =
      (.string '"' body true, rest) := by
    have hnumber : ¬ ('"'.isDigit || '"' == '.' &&
        startsWithDigit (body ++ '"' :: rest)) = true := nofun
    unfold splitLexeme
    rw [if_neg (by decide), if_neg (fun h => absurd h.1 (by decide)),
      if_neg (by decide), if_neg hnumber, if_pos (Or.inl rfl),
      splitString_quotable h]
  rw [spellings_cons, hlexeme]
  rfl

/-- A truth value is read up to its end. -/
theorem spellings_bool (b : Bool) {rest : List Char} (hrest : Breaks rest) :
    spellings (boolText b ++ rest) =
      (.boolean, String.ofList (boolText b)) :: spellings rest := by
  cases b with
  | true =>
      have hkind : TokenKind.ofWord (String.ofList ['t', 'r', 'u', 'e']) =
          .boolean := by
        decide
      have hword := @spellings_letters 't' ['r', 'u', 'e'] rfl rfl _ hrest
      rwa [hkind] at hword
  | false =>
      have hkind : TokenKind.ofWord
          (String.ofList ['f', 'a', 'l', 's', 'e']) = .boolean := by
        decide
      have hword := @spellings_letters 'f' ['a', 'l', 's', 'e'] rfl rfl _ hrest
      rwa [hkind] at hword

/-- An operator between blanks is read as what it is. -/
theorem spellings_operator (op : BinaryOp) (rest : List Char) :
    ∃ kind, (∃ level : Level, level.operator? kind = some op) ∧
      spellings (op.symbol ++ ' ' :: rest) =
        (kind, String.ofList op.symbol) :: spellings rest := by
  have hblank := breaks_cons (c := ' ') rfl rest
  rw [← spellings_blank rest]
  cases op with
  | add => exact ⟨.plus, ⟨.additive, rfl⟩, spellings_cons ..⟩
  | sub => exact ⟨.minus, ⟨.additive, rfl⟩, spellings_cons ..⟩
  | mul => exact ⟨.star, ⟨.multiplicative, rfl⟩, spellings_cons ..⟩
  | div => exact ⟨.slash, ⟨.multiplicative, rfl⟩, spellings_cons ..⟩
  | mod => exact ⟨.percent, ⟨.multiplicative, rfl⟩, spellings_cons ..⟩
  | eq => exact ⟨.equal, ⟨.comparison, rfl⟩, spellings_cons ..⟩
  | ne => exact ⟨.notEqual, ⟨.comparison, rfl⟩, spellings_cons ..⟩
  | gt => exact ⟨.greater, ⟨.comparison, rfl⟩, spellings_cons ..⟩
  | lt => exact ⟨.less, ⟨.comparison, rfl⟩, spellings_cons ..⟩
  | ge => exact ⟨.greaterEqual, ⟨.comparison, rfl⟩, spellings_cons ..⟩
  | le => exact ⟨.lessEqual, ⟨.comparison, rfl⟩, spellings_cons ..⟩
  | and =>
      have hkind : TokenKind.ofWord (String.ofList ['a', 'n', 'd']) = .and := by
        decide
      have hword := @spellings_letters 'a' ['n', 'd'] rfl rfl _ hblank
      rw [hkind] at hword
      exact ⟨.and, ⟨.conjunction, rfl⟩, hword⟩
  | or =>
      have hkind : TokenKind.ofWord (String.ofList ['o', 'r']) = .or := by
        decide
      have hword := @spellings_letters 'o' ['r'] rfl rfl _ hblank
      rw [hkind] at hword
      exact ⟨.or, ⟨.disjunction, rfl⟩, hword⟩

/-- So is an operator in front of an operand. -/
theorem spellings_unary (op : UnaryOp) (rest : List Char) :
    ∃ s : Spelling, unaryOperator? s.1 = some op ∧
      spellings (op.symbol ++ rest) = s :: spellings rest := by
  cases op with
  | neg => exact ⟨_, rfl, @spellings_lone '-' .minus rfl rest⟩
  | not =>
      have hkind : TokenKind.ofWord (String.ofList ['n', 'o', 't']) = .not := by
        decide
      have hword := @spellings_letters 'n' ['o', 't'] rfl rfl _
        (breaks_cons (c := ' ') rfl rest)
      rw [hkind, spellings_blank] at hword
      exact ⟨_, rfl, hword⟩

end Barscript.Script

import Barscript.Proofs.Script.Pieces

/-!
# A source is cut up without loss

What a source is made of, said without a lexer. `Spells` lists the texts that
spell a token of a class with a value, `Skipped` the texts that mean nothing
where they stand, and `Partition` puts a source together from both. The tokens
of a source are what is spelled in a partition of it, and one mark of the end
behind (`tokens_partition`).
-/

namespace Barscript.Script

open Barscript.Text

/-- In front of `behind` the text spells a token of the given class and value:
a string between quotes, of which the closing one may be missing at the end of
the source, a stated version behind the mark of versions, and any other token as
its value. -/
inductive Spells : (text : List Char) → Spelling → (behind : List Char) → Prop
  | newline {behind} : Spells ['\n'] (.newline, "\n") behind
  | number {digits behind} (h : IsNumber digits) :
      Spells digits (.number, String.ofList digits) behind
  | string {quote body behind} (h : quote = '"' ∨ quote = '\'') :
      Spells (quote :: body ++ [quote]) (.string, String.ofList body) behind
  | openString {quote body} (h : quote = '"' ∨ quote = '\'') :
      Spells (quote :: body) (.string, String.ofList body) []
  | version {digits behind} (hne : digits ≠ [])
      (h : ∀ c ∈ digits, c.isDigit = true) :
      Spells ('/' :: '/' :: pragmaMark ++ digits)
        (.versionPragma, String.ofList digits) behind
  | word {c letters behind} (h : isWordStart c = true)
      (hletters : ∀ d ∈ letters, isWordChar d = true) :
      Spells (c :: letters)
        (.ofWord (String.ofList (c :: letters)), String.ofList (c :: letters)) behind
  | symbol {kind text behind} (h : IsSymbol kind text) :
      Spells text (kind, String.ofList text) behind

/-- No token is spelled from the start of the text on. -/
def StartsNoToken (source : List Char) : Prop :=
  ∀ text s behind, source = text ++ behind → ¬ Spells text s behind

/-- In front of `behind` the text means nothing. Whether it stands directly
behind a version decides whether it is the rest of that line. -/
inductive Skipped : (behindVersion : Bool) → (text behind : List Char) → Prop
  | blank {v c behind} (h : c = ' ' ∨ c = '\t' ∨ c = '\r') : Skipped v [c] behind
  | comment {v body behind} (h : EndsLine body behind)
      (hversion : ¬ StatesVersion body) : Skipped v ('/' :: '/' :: body) behind
  | versionLine {ignored behind} (h : EndsLine ignored behind) :
      Skipped true ignored behind
  | stray {v c behind} (h : StartsNoToken (c :: behind)) : Skipped v [c] behind

/-- The source is what spells the tokens, in their order, and what is skipped
between them. -/
inductive Partition : (behindVersion : Bool) → (source : List Char) →
    List Spelling → Prop
  | done {v} : Partition v [] []
  | token {v text s behind more} (h : Spells text s behind)
      (hbehind : Partition (s.1 == .versionPragma) behind more) :
      Partition v (text ++ behind) (s :: more)
  | skipped {v text behind more} (h : Skipped v text behind)
      (hbehind : Partition false behind more) :
      Partition v (text ++ behind) more

/-! ## One piece -/

theorem oneCharKind?_of_isNumber {c : Char} {more : List Char}
    (h : IsNumber (c :: more)) (hdigit : c.isDigit = false) :
    oneCharKind? c = some .dot := by
  rcases h.chars c (List.mem_cons_self ..) with hc | rfl
  · rw [hdigit] at hc
    cases hc
  · rfl

/-- **A stray character starts no token**, whatever a token may be. -/
theorem startsNoToken_of_isStray {c : Char} {behind : List Char}
    (h : IsStray c behind) : StartsNoToken (c :: behind) := by
  intro text s left hsource hspells
  cases hspells with
  | newline =>
      cases hsource
      exact h.newline rfl
  | number hnumber =>
      obtain ⟨d, hd, _⟩ := hnumber.digit
      obtain ⟨e, more, rfl⟩ := List.exists_cons_of_ne_nil (List.ne_nil_of_mem hd)
      cases hsource
      have hdot := oneCharKind?_of_isNumber hnumber h.digit
      rw [h.one] at hdot
      cases hdot
  | string hquote =>
      cases hsource
      exact hquote.elim h.quote.1 h.quote.2
  | openString hquote =>
      cases hsource
      exact hquote.elim h.quote.1 h.quote.2
  | version =>
      cases hsource
      exact absurd h.one (by decide)
  | word hstart =>
      cases hsource
      rw [h.word] at hstart
      cases hstart
  | symbol hsymbol =>
      cases hsymbol with
      | one hone =>
          cases hsource
          rw [h.one] at hone
          cases hone
      | two htwo =>
          cases hsource
          rw [h.two _ _ rfl] at htwo
          cases htwo

theorem Partition.behindVersion {source : List Char} {spelled : List Spelling}
    (h : Partition false source spelled) : Partition true source spelled := by
  cases h with
  | done => exact .done
  | token hspells hbehind => exact .token hspells hbehind
  | skipped hskipped hbehind =>
      refine .skipped ?_ hbehind
      cases hskipped with
      | blank hblank => exact .blank hblank
      | comment hline hversion => exact .comment hline hversion
      | stray hstray => exact .stray hstray

/-- A piece that fits is one step of a partition, or two where it states a
version. -/
theorem partition_piece {piece : Lexeme} {behind : List Char}
    {spelled : List Spelling} (hfits : piece.Fits behind)
    (hbehind : Partition false behind spelled) :
    Partition false (piece.text ++ behind) (piece.token?.toList ++ spelled) := by
  cases piece with
  | blank c => exact .skipped (.blank hfits) hbehind
  | newline => exact .token .newline hbehind
  | comment body => exact .skipped (.comment hfits.1 hfits.2) hbehind
  | pragma digits ignored =>
      obtain ⟨hne, hdigits, hline⟩ := hfits
      show Partition false ('/' :: '/' :: pragmaMark ++ digits ++ ignored ++ behind) _
      rw [List.append_assoc]
      exact .token (.version hne hdigits) (.skipped (.versionLine hline) hbehind)
  | number digits => exact .token (.number hfits) hbehind
  | string quote body closed =>
      obtain ⟨hquote, hend⟩ := hfits
      cases closed with
      | true => exact .token (.string hquote) hbehind
      | false =>
          obtain rfl := hend rfl
          have htext : (Lexeme.string quote body false).text = quote :: body :=
            List.append_nil _
          rw [htext]
          exact .token (.openString hquote) hbehind
  | word letters =>
      obtain ⟨c, more, rfl, hstart, hmore⟩ := hfits
      refine .token (.word hstart hmore) ?_
      cases hkind : TokenKind.ofWord (String.ofList (c :: more)) == .versionPragma with
      | false => exact hbehind
      | true => exact hbehind.behindVersion
  | symbol kind spelling =>
      refine .token (.symbol hfits) ?_
      cases hkind : kind == .versionPragma with
      | false => exact hbehind
      | true => exact hbehind.behindVersion
  | stray c => exact .skipped (.stray (startsNoToken_of_isStray hfits)) hbehind

/-! ## Sources -/

theorem partition_of_fitting {pieces : List Lexeme} (h : Fitting pieces) :
    Partition false (pieces.flatMap Lexeme.text) (pieces.filterMap Lexeme.token?) := by
  induction pieces with
  | nil => exact .done
  | cons piece more ih =>
      have hpiece := partition_piece h.1 (ih h.2)
      rw [List.flatMap_cons]
      cases htoken : piece.token? with
      | none =>
          rw [htoken] at hpiece
          rw [List.filterMap_cons_none htoken]
          exact hpiece
      | some s =>
          rw [htoken] at hpiece
          rw [List.filterMap_cons_some htoken]
          exact hpiece

theorem partition_spellings (source : List Char) :
    Partition false source (spellings source) := by
  have hpieces := partition_of_fitting (fitting_lexemes source)
  rw [flatMap_text_lexemes] at hpieces
  exact hpieces

/-- Nothing that is spelled marks the end of the input. -/
theorem Spells.kind_ne {text behind : List Char} {s : Spelling}
    (h : Spells text s behind) : s.1 ≠ .endOfInput := by
  cases h with
  | word =>
      show TokenKind.ofWord _ ≠ .endOfInput
      unfold TokenKind.ofWord
      split_ifs <;> nofun
  | symbol h =>
      cases h with
      | one h =>
          unfold oneCharKind? at h
          split at h <;> cases h <;> nofun
      | two h =>
          unfold twoCharKind? at h
          split at h <;> cases h <;> nofun
  | newline | number | string | openString | version => nofun

theorem Partition.kind_ne {v : Bool} {source : List Char} {spelled : List Spelling}
    (h : Partition v source spelled) : ∀ s ∈ spelled, s.1 ≠ .endOfInput := by
  induction h with
  | done => exact fun s hs => absurd hs List.not_mem_nil
  | token hspells _ ih => exact List.forall_mem_cons.mpr ⟨hspells.kind_ne, ih⟩
  | skipped _ _ ih => exact ih

/-- **Nothing is lost and nothing is invented.** The tokens of a source end in
one mark of the end and have no other; the source is what spells the others, in
their order, joined with blanks, comments, rests of lines with a version, and
single characters that start no token. -/
theorem tokens_partition (source : String) :
    ∃ spelled finish,
      tokens source = spelled ++ [⟨.endOfInput, "", finish⟩] ∧
      (∀ token ∈ spelled, token.kind ≠ .endOfInput) ∧
      Partition false source.toList (spelled.map Token.spelling) := by
  obtain ⟨finish, htokens, hspelled⟩ :=
    tokensFrom_spelling .start (lexemes source.toList)
  have hpartition := partition_spellings source.toList
  refine ⟨(tokens source).dropLast, finish, htokens, ?_, ?_⟩
  · intro token htoken
    refine hpartition.kind_ne token.spelling ?_
    rw [← ahead_ofSource source]
    exact List.mem_map_of_mem htoken
  · show Partition false source.toList
      ((tokensFrom .start (lexemes source.toList)).dropLast.map Token.spelling)
    rw [hspelled]
    exact hpartition

end Barscript.Script

import Mathlib.Algebra.GroupWithZero.Nat
import Barscript.Proofs.Script.Joining
import Barscript.Proofs.Script.Pieces
import Barscript.Proofs.Text.Line

/-!
# Where tokens stand

The true place of a token is counted in the text in front of it
(`Place.ofText`). The running place of the lexer starts a new line with each
newline token only, so it falls behind the true line by one with each newline
inside a string (`line_behind`). A token has its true place exactly when no
string in front of it holds a newline, and then an error at it is shown under
the line it stands in, with the caret under its first character (`placed`).
-/

namespace Barscript.Script

open Barscript.Text

/-- The place behind a text, counted in the text. -/
def Place.ofText (front : List Char) : Place :=
  ⟨1 + front.count '\n', 1 + (currentLine front).length⟩

/-- The newlines inside the string of a piece. -/
def Lexeme.breaks : Lexeme → Nat
  | .string _ body _ => body.count '\n'
  | _ => 0

/-- The text of some pieces. -/
def textOf (pieces : List Lexeme) : List Char :=
  pieces.flatMap Lexeme.text

/-! ## Newlines in a piece -/

theorem newline_not_mem_isSymbol {kind : TokenKind} {text : List Char}
    (h : IsSymbol kind text) : '\n' ∉ text := by
  cases h with
  | one hone =>
      intro hmem
      obtain rfl := List.mem_singleton.mp hmem
      cases hone
  | @two c d _ htwo =>
      intro hmem
      rcases List.mem_cons.mp hmem with rfl | hmem
      · cases htwo
      · obtain rfl := List.mem_singleton.mp hmem
        rw [twoCharKind?_seam rfl] at htwo
        cases htwo

theorem newline_not_mem_digits {text : List Char}
    (h : ∀ c ∈ text, c.isDigit = true ∨ c = '.') : '\n' ∉ text := by
  intro hmem
  rcases h _ hmem with hdigit | hpoint
  · cases hdigit
  · cases hpoint

theorem newline_not_mem_word {c : Char} {more : List Char}
    (h : isWordStart c = true) (hmore : ∀ d ∈ more, isWordChar d = true) :
    '\n' ∉ c :: more := by
  have hbreak : isWordChar '\n' = false := by decide
  intro hmem
  have hword : isWordChar '\n' = true := by
    rcases List.mem_cons.mp hmem with rfl | hmem
    · exact isWordChar_of_isWordStart h
    · exact hmore _ hmem
  rw [hbreak] at hword
  cases hword

/-- Only the end of a line and strings hold newlines. -/
theorem count_text {piece : Lexeme} {behind : List Char} (h : piece.Fits behind)
    (hne : piece ≠ .newline) : piece.text.count '\n' = piece.breaks := by
  cases piece with
  | newline => exact absurd rfl hne
  | blank c => rcases h with rfl | rfl | rfl <;> rfl
  | comment body =>
      refine List.count_eq_zero.mpr ?_
      simpa [Lexeme.text] using h.1.1
  | pragma digits ignored =>
      have hdigits := newline_not_mem_digits fun c hc => Or.inl (h.2.1 c hc)
      refine List.count_eq_zero.mpr ?_
      simpa [Lexeme.text, pragmaMark, hdigits] using h.2.2.1
  | number digits => exact List.count_eq_zero.mpr (newline_not_mem_digits h.chars)
  | string quote body closed =>
      have hquote : quote ≠ '\n' := by
        rintro rfl
        exact absurd h.1 (by decide)
      show (quote :: body ++ _).count '\n' = body.count '\n'
      rw [List.count_append, List.count_cons_of_ne hquote]
      cases closed with
      | true => rw [if_pos rfl, List.count_cons_of_ne hquote]; rfl
      | false => rfl
  | word letters =>
      obtain ⟨c, more, rfl, hstart, hmore⟩ := h
      exact List.count_eq_zero.mpr (newline_not_mem_word hstart hmore)
  | symbol kind spelling => exact List.count_eq_zero.mpr (newline_not_mem_isSymbol h)
  | stray c => exact List.count_cons_of_ne h.newline

/-! ## The running place -/

theorem after_of_ne {piece : Lexeme} (hne : piece ≠ .newline) (place : Place) :
    place.after piece = ⟨place.line, place.column + piece.text.length⟩ := by
  cases piece with
  | newline => exact absurd rfl hne
  | _ => rfl

theorem ofText_newline (front : List Char) :
    Place.ofText (front ++ ['\n']) = ⟨(Place.ofText front).line + 1, 1⟩ := by
  unfold Place.ofText
  rw [currentLine_newline, List.count_append]
  rfl

theorem ofText_append {text : List Char} (h : '\n' ∉ text) (front : List Char) :
    Place.ofText (front ++ text) =
      ⟨(Place.ofText front).line, (Place.ofText front).column + text.length⟩ := by
  unfold Place.ofText
  rw [currentLine_append front h, List.count_append, List.count_eq_zero.mpr h,
    List.length_append, Nat.add_zero, Nat.add_assoc]

/-- Every piece fits what is behind it. -/
def AllFit (pieces : List Lexeme) : Prop :=
  ∀ piece ∈ pieces, ∃ behind, piece.Fits behind

theorem Fitting.allFit {pieces : List Lexeme} (h : Fitting pieces) :
    AllFit pieces := by
  induction pieces with
  | nil => exact fun piece hmem => absurd hmem List.not_mem_nil
  | cons piece rest ih => exact List.forall_mem_cons.mpr ⟨⟨_, h.1⟩, ih h.2⟩

/-- Without newlines in strings the running place stays the true place. -/
theorem behind_ofText {pieces : List Lexeme} (h : AllFit pieces)
    (hbreaks : ∀ piece ∈ pieces, piece.breaks = 0) (front : List Char) :
    (Place.ofText front).behind pieces = Place.ofText (front ++ textOf pieces) := by
  induction pieces generalizing front with
  | nil => exact congrArg Place.ofText (List.append_nil front).symm
  | cons piece rest ih =>
      obtain ⟨⟨_, hfits⟩, hrest⟩ := List.forall_mem_cons.mp h
      obtain ⟨hpiece, hothers⟩ := List.forall_mem_cons.mp hbreaks
      have hstep : (Place.ofText front).after piece =
          Place.ofText (front ++ piece.text) := by
        by_cases hne : piece = .newline
        · subst hne
          exact (ofText_newline front).symm
        · have hcount := count_text hfits hne
          rw [hpiece] at hcount
          rw [after_of_ne hne, ofText_append (List.count_eq_zero.mp hcount)]
      show ((Place.ofText front).after piece).behind rest = _
      rw [hstep, ih hrest hothers, List.append_assoc]
      rfl

/-- **The running line falls behind with each newline in a string.** -/
theorem line_behind {pieces : List Lexeme} (h : AllFit pieces) (place : Place) :
    (place.behind pieces).line + (pieces.map Lexeme.breaks).sum =
      place.line + (textOf pieces).count '\n' := by
  induction pieces generalizing place with
  | nil => rfl
  | cons piece rest ih =>
      obtain ⟨⟨_, hfits⟩, hothers⟩ := List.forall_mem_cons.mp h
      have hstep : (place.after piece).line + piece.breaks =
          place.line + piece.text.count '\n' := by
        by_cases hne : piece = .newline
        · subst hne
          rfl
        · rw [after_of_ne hne, count_text hfits hne]
      have hrest := ih hothers (place.after piece)
      have htext : (textOf (piece :: rest)).count '\n' =
          piece.text.count '\n' + (textOf rest).count '\n' := List.count_append
      show ((place.after piece).behind rest).line + _ = _
      rw [List.map_cons, List.sum_cons, htext]
      omega

/-- The running place is the true one just when no string held a newline. -/
theorem behind_eq_ofText_iff {pieces : List Lexeme} (h : AllFit pieces) :
    Place.start.behind pieces = Place.ofText (textOf pieces) ↔
      ∀ piece ∈ pieces, piece.breaks = 0 := by
  constructor
  · intro hplace
    have hline := line_behind h .start
    rw [hplace] at hline
    have htrue : (Place.ofText (textOf pieces)).line =
        Place.start.line + (textOf pieces).count '\n' := rfl
    have hsum : (pieces.map Lexeme.breaks).sum = 0 := by omega
    exact List.forall_mem_map.mp (List.sum_eq_zero_iff_forall_eq_nat.mp hsum)
  · exact fun hbreaks => behind_ofText h hbreaks []

/-! ## Tokens between pieces -/

/-- The token is the first that the pieces spell: the first of them spells it,
and where there is none it marks the end. -/
def Token.Opens (token : Token) : List Lexeme → Prop
  | [] => token.spelling = (.endOfInput, "")
  | piece :: _ => piece.token? = some token.spelling

/-- The token stands behind `before` and starts with the first piece behind;
`earlier` are the tokens in front of it. -/
structure Token.StandsBehind (source : String) (earlier : List Token)
    (before : List Lexeme) (token : Token) (behind : List Lexeme) : Prop where
  pieces : lexemes source.toList = before ++ behind
  earlier : before.filterMap Lexeme.token? = earlier.map Token.spelling
  opens : token.Opens behind

theorem Token.StandsBehind.source_eq {source : String} {earlier : List Token}
    {token : Token} {before behind : List Lexeme}
    (h : token.StandsBehind source earlier before behind) :
    source.toList = textOf before ++ textOf behind := by
  rw [← flatMap_text_lexemes source.toList, h.pieces, List.flatMap_append]
  rfl

theorem spelledFrom_silent {piece : Lexeme} (h : piece.token? = none) (place : Place)
    (rest : List Lexeme) :
    spelledFrom place (piece :: rest) = spelledFrom (place.after piece) rest := by
  rw [spelledFrom, h]

theorem spelledFrom_spelling {piece : Lexeme} {s : Spelling}
    (h : piece.token? = some s) (place : Place) (rest : List Lexeme) :
    spelledFrom place (piece :: rest) =
      ⟨s.1, s.2, place⟩ :: spelledFrom (place.after piece) rest := by
  rw [spelledFrom, h]

theorem spelling_spelledFrom (place : Place) (pieces : List Lexeme) :
    (spelledFrom place pieces).map Token.spelling =
      pieces.filterMap Lexeme.token? := by
  induction pieces generalizing place with
  | nil => rfl
  | cons piece rest ih =>
      cases htoken : piece.token? with
      | none =>
          rw [spelledFrom_silent htoken, List.filterMap_cons_none htoken]
          exact ih _
      | some s =>
          rw [spelledFrom_spelling htoken, List.filterMap_cons_some htoken]
          exact congrArg _ (ih _)

/-- A token among those that some pieces spell is spelled by one of them. -/
theorem spelledFrom_split {pieces : List Lexeme} {place : Place}
    {earlier later : List Token} {token : Token}
    (h : spelledFrom place pieces = earlier ++ token :: later) :
    ∃ before piece behind, pieces = before ++ piece :: behind ∧
      spelledFrom place before = earlier ∧ piece.token? = some token.spelling ∧
      token.place = place.behind before := by
  induction pieces generalizing place earlier with
  | nil =>
      exact absurd h.symm
        (List.append_ne_nil_of_right_ne_nil _ (List.cons_ne_nil _ _))
  | cons first rest ih =>
      cases htoken : first.token? with
      | none =>
          rw [spelledFrom_silent htoken] at h
          obtain ⟨before, piece, behind, rfl, hearlier, hpiece, hplace⟩ := ih h
          refine ⟨first :: before, piece, behind, rfl, ?_, hpiece, hplace⟩
          rw [spelledFrom_silent htoken]
          exact hearlier
      | some s =>
          rw [spelledFrom_spelling htoken] at h
          cases earlier with
          | nil =>
              cases h
              exact ⟨[], first, rest, rfl, rfl, htoken, rfl⟩
          | cons t earlier =>
              obtain ⟨rfl, hmore⟩ := List.cons_eq_cons.mp h
              obtain ⟨before, piece, behind, rfl, hearlier, hpiece, hplace⟩ :=
                ih hmore
              refine ⟨first :: before, piece, behind, rfl, ?_, hpiece, hplace⟩
              rw [spelledFrom_spelling htoken]
              exact congrArg _ hearlier

/-- Each token of a source stands behind some of its pieces, at the running place
behind them. -/
theorem standsBehind_of_tokens {source : String} {earlier later : List Token}
    {token : Token} (h : tokens source = earlier ++ token :: later) :
    ∃ before behind, token.StandsBehind source earlier before behind ∧
      token.place = Place.start.behind before := by
  unfold tokens at h
  rw [tokensFrom_eq] at h
  rcases List.eq_nil_or_concat later with rfl | ⟨later, last, rfl⟩
  · -- The mark of the end stands behind all pieces.
    obtain ⟨hearlier, hlast⟩ := List.append_inj' h rfl
    cases hlast
    refine ⟨lexemes source.toList, [], ⟨(List.append_nil _).symm, ?_, rfl⟩, rfl⟩
    rw [← hearlier, spelling_spelledFrom]
  · rw [List.concat_eq_append, ← List.cons_append, ← List.append_assoc] at h
    obtain ⟨hspelled, _⟩ := List.append_inj' h rfl
    obtain ⟨before, piece, behind, hpieces, hearlier, hpiece, hplace⟩ :=
      spelledFrom_split hspelled
    refine ⟨before, piece :: behind, ⟨hpieces, ?_, hpiece⟩, hplace⟩
    rw [← hearlier, spelling_spelledFrom]

theorem Token.StandsBehind.allFit {source : String} {earlier : List Token}
    {token : Token} {before behind : List Lexeme}
    (h : token.StandsBehind source earlier before behind) : AllFit before := by
  have hall := (fitting_lexemes source.toList).allFit
  rw [h.pieces] at hall
  exact fun piece hmem => hall piece (List.mem_append_left _ hmem)

/-! ## Faults -/

/-- What stands at a cursor in a source is a token of the source. -/
theorem peek_of_leads {source : String} {d : Cursor}
    (h : (Cursor.ofSource source).Leads d) :
    ∃ earlier later, tokens source = earlier ++ d.peek :: later := by
  have hsource := ofSource_eq source
  have htokens : tokens source = (Cursor.ofSource source).pending ++
      [⟨.endOfInput, "", (Cursor.ofSource source).finish⟩] := by
    rw [hsource]
    exact tokensFrom_eq _ _
  obtain ⟨earlier, hpending⟩ := h.suffix
  rw [htokens, ← hpending, ← h.finish]
  unfold Cursor.peek
  cases d.pending with
  | nil => exact ⟨earlier ++ [], [], rfl⟩
  | cons token rest =>
      refine ⟨earlier, rest ++ [⟨.endOfInput, "", d.finish⟩], ?_⟩
      rw [List.append_assoc]
      rfl

/-- **A fault is at a token of the source.** -/
theorem mem_tokens_of_fault {source : String} {fault : Fault}
    (h : statementsOf source = .error fault) :
    ∃ earlier later, tokens source = earlier ++ fault.token :: later := by
  obtain ⟨d, hleads, htoken⟩ := (later_statements _ h).token
  rw [htoken]
  exact peek_of_leads hleads

/-- How an error at a cut of a source is shown: the line that the cut goes
through, and a caret under the first character behind the cut. -/
def shownAt (front behind : List Char) (message : String) : String :=
  String.ofList (lineThrough front behind ++
    '\n' :: List.replicate (currentLine front).length ' ' ++ ['^', '\n']) ++ message

theorem inContext_eq {e : SyntaxError} {source : String} {front behind : List Char}
    (hsource : source.toList = front ++ behind) (hplace : e.place = Place.ofText front) :
    e.inContext source = shownAt front behind e.message := by
  have hline : e.place.line - 1 = front.count '\n' := by
    rw [hplace]
    exact Nat.add_sub_cancel_left ..
  have hcolumn : e.place.column - 1 = (currentLine front).length := by
    rw [hplace]
    exact Nat.add_sub_cancel_left ..
  unfold SyntaxError.inContext shownAt
  rw [hsource, hline, hcolumn, getD_lines]

/-! ## Sources -/

/-- What holds of the places in a source. -/
structure Placed (source : String) : Prop where
  /-- A token has its true place just when no string in front holds a newline. -/
  token : ∀ earlier token later, tokens source = earlier ++ token :: later →
    ∃ before behind, Token.StandsBehind source earlier before token behind ∧
      (token.place = Place.ofText (textOf before) ↔
        ∀ piece ∈ before, piece.breaks = 0)
  /-- A source that cannot be read is at fault at one of its tokens. If no string
  in front of that token holds a newline, the error is shown at the token. -/
  fault : ∀ e, Strategy.parse source = .error e →
    ∃ (fault : Fault) (earlier later : List Token) (before behind : List Lexeme),
      e = fault.toError ∧
      tokens source = earlier ++ fault.token :: later ∧
      Token.StandsBehind source earlier before fault.token behind ∧
      ((∀ piece ∈ before, piece.breaks = 0) →
        e.inContext source = shownAt (textOf before) (textOf behind) e.message)

/-- **Tokens and errors have their true places, but for newlines in strings.** -/
theorem placed (source : String) : Placed source := by
  constructor
  · intro earlier token later htokens
    obtain ⟨before, behind, hstands, hplace⟩ := standsBehind_of_tokens htokens
    refine ⟨before, behind, hstands, ?_⟩
    rw [hplace]
    exact behind_eq_ofText_iff hstands.allFit
  · intro e he
    unfold Strategy.parse at he
    cases hfault : statementsOf source with
    | ok all =>
        rw [hfault] at he
        cases he
    | error fault =>
        rw [hfault] at he
        cases he
        obtain ⟨earlier, later, htokens⟩ := mem_tokens_of_fault hfault
        obtain ⟨before, behind, hstands, hplace⟩ := standsBehind_of_tokens htokens
        refine ⟨fault, earlier, later, before, behind, rfl, htokens, hstands, ?_⟩
        intro hbreaks
        refine inContext_eq hstands.source_eq ?_
        exact hplace.trans (behind_ofText hstands.allFit hbreaks [])

/-- A newline in a string: what stands behind it in the second line is placed in
the first. -/
example : (tokens "'\n' x").map Token.place = [⟨1, 1⟩, ⟨1, 5⟩, ⟨1, 6⟩] := by
  decide +kernel

end Barscript.Script

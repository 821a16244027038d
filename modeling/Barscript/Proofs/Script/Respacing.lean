import Mathlib.Data.List.Chain
import Mathlib.Data.List.Forall2
import Barscript.Proofs.Script.Pieces

/-!
# Tokens written out again

The tokens of a source, each written out and with single blanks between them,
are read as the same tokens (`tokens_respaced`). A blank ends every token but
two: a string ends at its closing quote only, and a stated version takes the
rest of its line with it, so that the token behind it is the end of the line.
-/

namespace Barscript.Script

open Barscript.Text

/-! ## Strings -/

/-- The characters of a string that no backslash takes with it. A backslash
that takes one is none of them. -/
def unescaped : List Char → List Char
  | [] => []
  | '\\' :: _ :: rest => unescaped rest
  | c :: rest => c :: unescaped rest

theorem unescaped_plain {c : Char} (h : c ≠ '\\') (rest : List Char) :
    unescaped (c :: rest) = c :: unescaped rest := by
  rw [unescaped.eq_def]
  split
  · contradiction
  · rename_i heq
    cases heq
    exact absurd rfl h
  · rename_i heq
    cases heq
    rfl

/-- A string that is closed ends in front of its first quote, and its last
backslash takes a character with it. -/
theorem not_mem_unescaped {quote : Char} {text : List Char}
    (h : (splitString quote text).2 ≠ []) :
    quote ∉ unescaped (splitString quote text).1 ∧
      '\\' ∉ unescaped (splitString quote text).1 := by
  fun_induction splitString quote text with
  | case1 => exact absurd rfl h
  | case2 => exact ⟨List.not_mem_nil, List.not_mem_nil⟩
  | case3 => exact absurd rfl h
  | case4 d rest body left heq _ ih =>
      rw [heq] at ih
      exact ih h
  | case5 c rest hc hescape body left heq ih =>
      rw [heq] at ih
      rw [unescaped_plain hescape, List.mem_cons, List.mem_cons, not_or,
        not_or]
      exact ⟨⟨fun h => hc h.symm, (ih h).1⟩, fun h => hescape h.symm,
        (ih h).2⟩

/-- Between quotes that do not occur in it a string is read up to its end. -/
theorem splitString_unescaped {quote : Char} {body : List Char}
    (hquote : quote ∉ unescaped body) (hescape : '\\' ∉ unescaped body)
    (hne : quote ≠ '\\') (rest : List Char) :
    splitString quote (body ++ quote :: rest) = (body, quote :: rest) := by
  fun_induction unescaped body with
  | case1 =>
      rw [List.nil_append, splitString.eq_def]
      exact if_pos rfl
  | case2 d body ih =>
      rw [List.cons_append, List.cons_append,
        splitString_escape (Ne.symm hne), ih hquote hescape]
  | case3 c body _ ih =>
      rw [List.mem_cons, not_or] at hquote hescape
      rw [List.cons_append,
        splitString_plain (Ne.symm hquote.1) (Ne.symm hescape.1),
        ih hquote.2 hescape.2]

/-! ## One token -/

/-- The texts that a token may be written out as: a string between quotes that
do not occur in it but for escapes, a version behind the mark of versions, and
any other token as its value. -/
inductive WrittenAs : Spelling → List Char → Prop where
  | string {value : String} {quote : Char} (h : quote = '"' ∨ quote = '\'')
      (hquote : quote ∉ unescaped value.toList) :
      WrittenAs (.string, value) (quote :: value.toList ++ [quote])
  | version (digits : String) : WrittenAs (.versionPragma, digits)
      ('/' :: '/' :: pragmaMark ++ digits.toList)
  | plain {s : Spelling} (h : s.1 ≠ .string) (h' : s.1 ≠ .versionPragma) :
      WrittenAs s s.2.toList

/-- What may come behind a token that is written out: nothing or a blank, and
behind a version the end of the line as well. -/
def Spaced (s : Spelling) (rest : List Char) : Prop :=
  rest = [] ∨ ∃ more, rest = ' ' :: more ∧
    (s.1 = .versionPragma → ∃ others, more = '\n' :: others)

/-- Written out, the token is read as it is. -/
structure Respells (s : Spelling) : Prop where
  written : ∃ text, WrittenAs s text
  read : ∀ text rest, WrittenAs s text → Spaced s rest →
    spellings (text ++ rest) = s :: spellings rest

theorem Spaced.breaks {s : Spelling} {rest : List Char} (h : Spaced s rest) :
    Breaks rest := by
  rcases h with rfl | ⟨more, rfl, _⟩
  · exact fun c hc => by cases hc
  · exact breaks_cons rfl more

/-- A token that is written out as its value. -/
theorem respells_plain {s : Spelling} (h : s.1 ≠ .string)
    (h' : s.1 ≠ .versionPragma)
    (hread : ∀ rest, Spaced s rest →
      spellings (s.2.toList ++ rest) = s :: spellings rest) : Respells s := by
  refine ⟨⟨_, .plain h h'⟩, ?_⟩
  intro text rest htext hrest
  cases htext with
  | string => exact absurd rfl h
  | version => exact absurd rfl h'
  | plain => exact hread rest hrest

theorem spellings_point {fraction : List Char} (hne : fraction ≠ [])
    (hdigits : ∀ c ∈ fraction, c.isDigit = true) {rest : List Char}
    (hrest : Breaks rest) :
    spellings ('.' :: fraction ++ rest) =
      (.number, String.ofList ('.' :: fraction)) :: spellings rest := by
  obtain ⟨d, more, rfl⟩ := List.exists_cons_of_ne_nil hne
  have hdigit : d.isDigit = true := hdigits d (List.mem_cons_self ..)
  have hsplit : splitNumber false ('.' :: (d :: more ++ rest)) =
      ('.' :: d :: more, rest) := by
    rw [splitNumber, if_neg (by decide), if_pos ⟨rfl, rfl⟩,
      splitNumber_digits hdigits, splitNumber_breaks hrest, List.append_nil]
  have hlexeme : splitLexeme '.' (d :: more ++ rest) =
      (.number ('.' :: d :: more), rest) := by
    have hstart : startsWithDigit (d :: more ++ rest) = true := hdigit
    unfold splitLexeme
    rw [if_neg (by decide), if_neg (fun h => absurd h.1 (by decide)),
      if_neg (by decide), if_pos (by rw [hstart]; rfl), hsplit]
  rw [List.cons_append, spellings_cons, hlexeme]
  rfl

theorem respells_number {digits : List Char} (h : IsNumber digits) :
    Respells (.number, String.ofList digits) := by
  refine respells_plain nofun nofun fun rest hrest => ?_
  have hbreaks := hrest.breaks
  rw [String.toList_ofList]
  rcases h.parts with ⟨hne, hdigits⟩ | ⟨whole, fraction, rfl, hne, hwhole, hfraction⟩
  · exact spellings_number (.whole hne hdigits) hbreaks
  · cases whole with
    | nil => exact spellings_point hne hfraction hbreaks
    | cons d more =>
        exact spellings_number (.pointed (List.cons_ne_nil _ _) hwhole
          hfraction) hbreaks

theorem respells_word {name : String} (h : IsWord name) :
    Respells (.ofWord name, name) := by
  have hne : ∀ kind, kind = .string ∨ kind = .versionPragma →
      TokenKind.ofWord name ≠ kind := by
    unfold TokenKind.ofWord
    rintro kind (rfl | rfl) <;> split_ifs <;> nofun
  exact respells_plain (hne _ (Or.inl rfl)) (hne _ (Or.inr rfl))
    fun rest hrest => spellings_word h hrest.breaks

/-- A blank behind an operator keeps it apart from what follows. -/
theorem respells_symbol {kind : TokenKind} {spelling : List Char}
    (h : IsSymbol kind spelling) : Respells (kind, String.ofList spelling) := by
  have hread : ∀ rest, Spaced (kind, String.ofList spelling) rest →
      spellings (spelling ++ rest) =
        (kind, String.ofList spelling) :: spellings rest := by
    intro rest hrest
    cases h with
    | @one c _ hone =>
        unfold oneCharKind? at hone
        split at hone <;> cases hone <;>
          rcases hrest with rfl | ⟨more, rfl, _⟩ <;> exact spellings_cons ..
    | @two c d _ htwo =>
        unfold twoCharKind? at htwo
        split at htwo <;> cases htwo <;> exact spellings_cons ..
  have hne : kind ≠ .string ∧ kind ≠ .versionPragma := by
    cases h with
    | one hone =>
        unfold oneCharKind? at hone
        split at hone <;> cases hone <;> exact ⟨nofun, nofun⟩
    | two htwo =>
        unfold twoCharKind? at htwo
        split at htwo <;> cases htwo <;> exact ⟨nofun, nofun⟩
  refine respells_plain hne.1 hne.2 fun rest hrest => ?_
  rw [String.toList_ofList]
  exact hread rest hrest

theorem respells_string {quote : Char} (h : quote = '"' ∨ quote = '\'')
    {body : List Char} (hquote : quote ∉ unescaped body)
    (hescape : '\\' ∉ unescaped body) :
    Respells (.string, String.ofList body) := by
  constructor
  · refine ⟨_, .string h ?_⟩
    rwa [String.toList_ofList]
  · intro text rest htext _
    cases htext with
    | plain hne => exact absurd rfl hne
    | @string _ other hother hfree =>
        rw [String.toList_ofList] at hfree ⊢
        have hne : other ≠ '\\' := by
          rcases hother with rfl | rfl <;> decide
        have hlexeme : splitLexeme other (body ++ other :: rest) =
            (.string other body true, rest) := by
          have hsplit := splitString_unescaped hfree hescape hne rest
          unfold splitLexeme
          rcases hother with rfl | rfl <;>
            rw [if_neg (by decide), if_neg (fun h => absurd h.1 (by decide)),
              if_neg (by decide), if_neg nofun, if_pos (by decide), hsplit]
        have htext : other :: body ++ [other] ++ rest =
            other :: (body ++ other :: rest) := by
          rw [List.append_assoc]
          rfl
        rw [htext]
        rw [spellings_cons, hlexeme]
        rfl

/-- A version is read with the rest of its line. -/
theorem splitComment_version {digits ignored behind : List Char}
    (hne : digits ≠ []) (hdigits : ∀ c ∈ digits, c.isDigit = true)
    (hline : EndsLine ignored behind)
    (hstop : ∀ c ∈ ignored.head?, c.isDigit = false) :
    splitComment (pragmaMark ++ digits ++ ignored ++ behind) =
      (.pragma digits ignored, behind) := by
  have hinside : ∀ c ∈ pragmaMark ++ digits ++ ignored,
      (c != '\n') = true := by
    intro c hc
    rw [bne_iff_ne]
    rintro rfl
    rcases List.mem_append.mp hc with hc | hc
    · rcases List.mem_append.mp hc with hc | hc
      · exact absurd hc (by decide)
      · cases hdigits _ hc
    · exact hline.1 hc
  have hend : behind.takeWhile (· != '\n') = [] ∧
      behind.dropWhile (· != '\n') = behind := by
    rcases hline.2 with rfl | ⟨more, rfl⟩ <;> exact ⟨rfl, rfl⟩
  have hmark : afterFront? pragmaMark (pragmaMark ++ digits ++ ignored) =
      some (digits ++ ignored) := by
    unfold afterFront?
    rw [List.append_assoc, if_pos (List.isPrefixOf_iff_prefix.mpr
      (List.prefix_append _ _)), List.drop_left]
  have hnumber : (digits ++ ignored).takeWhile Char.isDigit = digits ∧
      (digits ++ ignored).dropWhile Char.isDigit = ignored := by
    rw [List.takeWhile_append_of_pos hdigits,
      List.dropWhile_append_of_pos hdigits]
    cases ignored with
    | nil => exact ⟨List.append_nil _, rfl⟩
    | cons c more =>
        have hc := hstop c rfl
        rw [List.takeWhile_cons_of_neg (by rw [hc]; decide),
          List.dropWhile_cons_of_neg (by rw [hc]; decide), List.append_nil]
        exact ⟨rfl, rfl⟩
  unfold splitComment
  dsimp only
  rw [List.takeWhile_append_of_pos hinside,
    List.dropWhile_append_of_pos hinside, hend.1, hend.2, List.append_nil,
    hmark]
  dsimp only
  rw [hnumber.1, hnumber.2, if_neg (by rwa [List.isEmpty_iff])]

theorem respells_version {digits : List Char} (hne : digits ≠ [])
    (hdigits : ∀ c ∈ digits, c.isDigit = true) :
    Respells (.versionPragma, String.ofList digits) := by
  refine ⟨⟨_, .version _⟩, ?_⟩
  intro text rest htext hrest
  cases htext with
  | plain _ hversion => exact absurd rfl hversion
  | version =>
      rw [String.toList_ofList]
      -- The blank in front of the end of the line is taken along.
      obtain ⟨ignored, behind, rfl, hline, hstop, hsame⟩ :
          ∃ ignored behind, rest = ignored ++ behind ∧
            EndsLine ignored behind ∧
            (∀ c ∈ ignored.head?, c.isDigit = false) ∧
            spellings rest = spellings behind := by
        rcases hrest with rfl | ⟨more, rfl, hmore⟩
        · exact ⟨[], [], rfl, ⟨List.not_mem_nil, Or.inl rfl⟩, nofun, rfl⟩
        · obtain ⟨others, rfl⟩ := hmore rfl
          refine ⟨[' '], '\n' :: others, rfl,
            ⟨by decide, Or.inr ⟨others, rfl⟩⟩, ?_, spellings_blank _⟩
          rintro c hc
          cases hc
          rfl
      have hsplit := splitComment_version hne hdigits hline hstop
      have hlexeme : splitLexeme '/' ('/' :: (pragmaMark ++ digits ++ ignored ++
          behind)) = (.pragma digits ignored, behind) := by
        rw [← hsplit]
        rfl
      rw [hsame, ← List.append_assoc]
      show spellings ('/' :: '/' :: (pragmaMark ++ digits ++ ignored ++
        behind)) = _
      rw [spellings_cons, hlexeme]
      rfl

/-! ## All tokens -/

/-- Whether a piece is a closed string is seen from its body. -/
theorem not_mem_of_splitLexeme {c quote : Char} {rest body : List Char}
    (h : (splitLexeme c rest).1 = .string quote body true) :
    quote ∉ unescaped body ∧ '\\' ∉ unescaped body := by
  have hsplit : splitString quote rest = (body, (splitString quote rest).2) ∧
      (splitString quote rest).2 ≠ [] := by
    unfold splitLexeme splitComment splitSymbol at h
    dsimp only at h
    split_ifs at h
    · split at h
      · cases h
      · split at h <;> cases h
    · split at h
      · cases h
      · rename_i body' d left heq
        cases h
        rw [heq]
        exact ⟨rfl, List.cons_ne_nil _ _⟩
    · repeat' split at h
      all_goals cases h
  have hclosed := not_mem_unescaped hsplit.2
  rwa [hsplit.1] at hclosed

theorem respells_piece {piece : Lexeme} {behind : List Char} {s : Spelling}
    (hfits : piece.Fits behind) (hopen : piece.isOpen = false)
    (hbody : ∀ quote body, piece = .string quote body true →
      quote ∉ unescaped body ∧ '\\' ∉ unescaped body)
    (hs : piece.token? = some s) : Respells s := by
  cases piece with
  | blank _ | comment _ | stray _ => cases hs
  | newline =>
      cases hs
      refine respells_plain nofun nofun fun rest _ => ?_
      exact spellings_cons ..
  | pragma digits ignored =>
      cases hs
      exact respells_version hfits.1 hfits.2.1
  | number digits =>
      cases hs
      exact respells_number hfits
  | string quote body closed =>
      cases closed with
      | false => cases hopen
      | true =>
          cases hs
          obtain ⟨hquote, hescape⟩ := hbody quote body rfl
          exact respells_string hfits.1 hquote hescape
  | word letters =>
      obtain ⟨c, more, rfl, hstart, hmore⟩ := hfits
      cases hs
      exact respells_word ⟨c, more, String.toList_ofList, hstart, hmore⟩
  | symbol kind spelling =>
      cases hs
      exact respells_symbol hfits

theorem respells_spellings {source : List Char} (h : StringsClosed source) :
    ∀ s ∈ spellings source, Respells s := by
  unfold StringsClosed at h
  unfold spellings
  fun_induction lexemes source with
  | case1 => exact fun s hs => absurd hs List.not_mem_nil
  | case2 c rest ih =>
      rw [List.forall_mem_cons] at h
      intro s hs
      obtain ⟨piece, hpiece, hs⟩ := List.mem_filterMap.mp hs
      rcases List.mem_cons.mp hpiece with rfl | hpiece
      · exact respells_piece (fits_splitLexeme c rest) h.1
          (fun _ _ => not_mem_of_splitLexeme) hs
      · exact ih h.2 s (List.mem_filterMap.mpr ⟨piece, hpiece, hs⟩)

/-- Behind a version comes the end of the line. -/
def VersionEndsLine (s t : Spelling) : Prop :=
  s.1 = .versionPragma → t = lineBreak

/-- Only a stated version spells a version. -/
theorem endsLine_of_version {piece : Lexeme} {behind : List Char}
    {s : Spelling} (hfits : piece.Fits behind) (hs : piece.token? = some s)
    (hkind : s.1 = .versionPragma) :
    behind = [] ∨ ∃ more, behind = '\n' :: more := by
  cases piece with
  | blank _ | comment _ | stray _ => cases hs
  | newline | number _ | string _ _ _ =>
      cases hs
      cases hkind
  | pragma digits ignored => exact hfits.2.2.2
  | word letters =>
      cases hs
      unfold TokenKind.ofWord at hkind
      split_ifs at hkind
  | symbol kind spelling =>
      cases hs
      cases hkind
      cases hfits with
      | one hone =>
          unfold oneCharKind? at hone
          split at hone <;> cases hone
      | two htwo =>
          unfold twoCharKind? at htwo
          split at htwo <;> cases htwo

theorem isChain_spellings (source : List Char) :
    (spellings source).IsChain VersionEndsLine := by
  unfold spellings
  fun_induction lexemes source with
  | case1 => exact .nil
  | case2 c rest ih =>
      cases htoken : (splitLexeme c rest).1.token? with
      | none =>
          rw [List.filterMap_cons_none htoken]
          exact ih
      | some s =>
          rw [List.filterMap_cons_some htoken, List.isChain_cons]
          refine ⟨?_, ih⟩
          intro t ht hkind
          rcases endsLine_of_version (fits_splitLexeme c rest) htoken hkind with
            hnil | ⟨more, hmore⟩
          · rw [hnil, lexemes] at ht
            cases ht
          · rw [hmore, lexemes] at ht
            cases ht
            rfl

theorem exists_written {spelled : List Spelling}
    (h : ∀ s ∈ spelled, Respells s) :
    ∃ texts, List.Forall₂ WrittenAs spelled texts := by
  induction spelled with
  | nil => exact ⟨[], .nil⟩
  | cons s rest ih =>
      rw [List.forall_mem_cons] at h
      obtain ⟨text, htext⟩ := h.1.written
      obtain ⟨texts, htexts⟩ := ih h.2
      exact ⟨text :: texts, .cons htext htexts⟩

theorem writtenAs_lineBreak {text : List Char}
    (h : WrittenAs lineBreak text) : text = ['\n'] := by
  cases h
  rfl

/-- Tokens that are read one by one are read one behind the other. -/
theorem spellings_written {spelled : List Spelling} {texts : List (List Char)}
    (h : List.Forall₂ WrittenAs spelled texts)
    (hread : ∀ s ∈ spelled, Respells s)
    (hchain : spelled.IsChain VersionEndsLine) :
    spellings ([' '].intercalate texts) = spelled := by
  induction h with
  | nil => exact spellings_nil
  | @cons s text spelled texts htext htexts ih =>
      rw [List.forall_mem_cons] at hread
      rw [List.isChain_cons] at hchain
      have hrest := ih hread.2 hchain.2
      cases htexts with
      | nil =>
          have hone : [' '].intercalate [text] = text ++ [] := by
            rw [List.append_nil]
            exact List.append_nil text
          rw [hone, hread.1.read text [] htext (Or.inl rfl), spellings_nil]
      | @cons t next others nexts hnext hnexts =>
          have hjoin : [' '].intercalate (text :: next :: nexts) =
              text ++ ' ' :: [' '].intercalate (next :: nexts) := rfl
          have hspaced : Spaced s (' ' :: [' '].intercalate (next :: nexts)) := by
            refine Or.inr ⟨_, rfl, fun hkind => ?_⟩
            rw [hchain.1 t rfl hkind] at hnext
            rw [writtenAs_lineBreak hnext]
            cases nexts with
            | nil => exact ⟨[], rfl⟩
            | cons last more => exact ⟨_, rfl⟩
          rw [hjoin, hread.1.read text _ htext hspaced, spellings_blank, hrest]

/-- **Tokens are stable under respacing.** A source that leaves no string open
can be written out again token by token, and however this is done, with single
blanks between the tokens the text has tokens of the same classes and values. -/
theorem tokens_respaced {source : String} (h : StringsClosed source.toList) :
    (∃ texts, List.Forall₂ WrittenAs
      ((tokens source).dropLast.map Token.spelling) texts) ∧
    ∀ texts, List.Forall₂ WrittenAs
        ((tokens source).dropLast.map Token.spelling) texts →
      (tokens (String.ofList ([' '].intercalate texts))).map Token.spelling =
        (tokens source).map Token.spelling := by
  have hspelled : ∀ text : String,
      (tokens text).dropLast.map Token.spelling = spellings text.toList :=
    ahead_ofSource
  have htokens : ∀ text : String, (tokens text).map Token.spelling =
      spellings text.toList ++ [(.endOfInput, "")] := by
    intro text
    obtain ⟨finish, hlast, hspelled⟩ :=
      tokensFrom_spelling .start (lexemes text.toList)
    unfold tokens
    rw [hlast, List.map_append, hspelled]
    rfl
  have hread := respells_spellings h
  rw [hspelled]
  refine ⟨exists_written hread, ?_⟩
  intro texts htexts
  rw [htokens, htokens, String.toList_ofList,
    spellings_written htexts hread (isChain_spellings _)]

/-- A stated version, and a line without a blank in which one text holds the
quote of the other and an escape of its own. -/
def packedScript : String :=
  "//@version=5 strict\nx=.5>=1.?'it\\'s \"5\"':\"\\\\\"//half\n"

/-- The tokens of these lines, each written out. -/
def packedTexts : List (List Char) :=
  ["//@version=5".toList, ['\n'], ['x'], ['='], ['.', '5'], ['>', '='],
    ['1', '.'], ['?'], "'it\\'s \"5\"'".toList, [':'], "'\\\\'".toList, ['\n']]

theorem tokens_respaced_packedScript :
    StringsClosed packedScript.toList ∧
      List.Forall₂ WrittenAs
        ((tokens packedScript).dropLast.map Token.spelling) packedTexts ∧
      (tokens "//@version=5 \n x = .5 >= 1. ? 'it\\'s \"5\"' : '\\\\' \n").map
          Token.spelling = (tokens packedScript).map Token.spelling := by
  have hclosed : StringsClosed packedScript.toList := by
    unfold StringsClosed
    decide +kernel
  have hspelled : (tokens packedScript).dropLast.map Token.spelling =
      [(.versionPragma, "5"), lineBreak, (.identifier, "x"), (.assign, "="),
        (.number, ".5"), (.greaterEqual, ">="), (.number, "1."),
        (.question, "?"), (.string, "it\\'s \"5\""), (.colon, ":"),
        (.string, "\\\\"), lineBreak] := by
    decide +kernel
  have hwritten : List.Forall₂ WrittenAs
      ((tokens packedScript).dropLast.map Token.spelling) packedTexts := by
    have hplain : ∀ {s : Spelling} {text : List Char}, s.1 ≠ .string →
        s.1 ≠ .versionPragma → s.2.toList = text → WrittenAs s text := by
      rintro s _ hstring hversion rfl
      exact .plain hstring hversion
    rw [hspelled]
    refine .cons (.version "5") (.cons (hplain nofun nofun rfl) ?_)
    iterate 6 refine .cons (hplain nofun nofun rfl) ?_
    refine .cons (.string (Or.inr rfl) (by decide)) ?_
    refine .cons (hplain nofun nofun rfl) ?_
    exact .cons (.string (Or.inr rfl) (by decide))
      (.cons (hplain nofun nofun rfl) .nil)
  exact ⟨hclosed, hwritten, (tokens_respaced hclosed).2 packedTexts hwritten⟩

end Barscript.Script

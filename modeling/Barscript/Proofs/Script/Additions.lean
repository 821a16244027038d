import Barscript.Proofs.Script.Cuts
import Barscript.Proofs.Script.PaddedScripts

/-!
# Additions that say nothing

A list in brackets may be added among the arguments of a call that is read as
one, and the line may end behind an opening parenthesis, around a comma and in
front of a closing parenthesis: the script says the same (`parse_add_list`,
`parse_add_breaks`). Every place beside such a token of a script will do
(`BesideMark.apart`, `BesideMark.breakPlace`). In a call that is passed over a
list is not harmless: with a name it is read as an assignment
(`passed_over_list_fails`).
-/

namespace Barscript.Script

theorem parse_padded {source source' : String} {called : List Spelling → Prop}
    (h : Padded called [] (spellings source.toList)
      (spellings source'.toList))
    (hcalled : ∀ d, StartsAt (.ofSource source) d → called d.ahead →
      ¬ d.PassesOver)
    {s : Strategy} (hs : Strategy.parse source = .ok s) :
    Strategy.parse source' = .ok s := by
  obtain ⟨all, hall, rfl⟩ := statements_of_parse hs
  have haligned : (Cursor.ofSource source).Aligned (Padded called [])
      (Cursor.ofSource source') := by
    refine ⟨?_, rfl⟩
    rwa [ahead_ofSource, ahead_ofSource]
  obtain ⟨all', hall', hsame⟩ := padded_statements _ _
    (resumes_of_aligned (fun _ hb => absurd hb List.not_mem_nil) haligned)
    hcalled hall
  have hparsed : statementsOf source' = .ok all' := hall'
  unfold Strategy.parse
  rw [hparsed]
  exact congrArg Except.ok (hsame .empty)

/-! ## Lists -/

/-- An argument may start behind `B`, which stands behind the parenthesis of a
call. -/
inductive AtSlot : List Spelling → Prop where
  | first {B : List Spelling} (h : LineBreaks B) : AtSlot B
  | further {B Z : List Spelling} {m : String} (hZ : LineBreaks Z) :
      AtSlot (B ++ (.comma, m) :: Z)

/-- Between `B` and `Y`, which stand behind the parenthesis of a call, `Z` is a
list as one more argument. -/
inductive AddsList (B Y Z : List Spelling) : Prop where
  | before (hB : AtSlot B) (hZ : ListBefore Y Z)
  | behind (hY : headKind (pastBreaks Y) = .rightParen ∨
      headKind (pastBreaks Y) = .comma) (hZ : ListBehind Z)

/-- The call of which `A` is left is read as one: its name is not passed
over. -/
def ParsedCall (source : String) (A : List Spelling) : Prop :=
  ∀ d, StartsAt (.ofSource source) d → d.ahead = A → ¬ d.PassesOver

section

variable {called : List Spelling → Prop} {levels : List Bool}
  {B X Y Z : List Spelling}

theorem LineBreaks.append {Z' : List Spelling} (hZ : LineBreaks Z)
    (hZ' : LineBreaks Z') : LineBreaks (Z ++ Z') :=
  fun s hs => (List.mem_append.mp hs).elim (hZ s) (hZ' s)

theorem ListBefore.breaks (hB : LineBreaks B) (h : ListBefore Y Z) :
    ListBefore (B ++ Y) (B ++ Z) := by
  cases h with
  | separated hZ hL hZ' =>
      rw [← List.append_assoc]
      exact .separated (hB.append hZ) hL hZ'
  | last hZ hL hY =>
      rw [← List.append_assoc]
      refine .last (hB.append hZ) hL ?_
      rwa [pastBreaks_append hB]

theorem append_pastBreaks (A : List Spelling) :
    ∃ Z, LineBreaks Z ∧ A = Z ++ pastBreaks A := by
  induction A with
  | nil => exact ⟨[], fun _ hs => absurd hs List.not_mem_nil, rfl⟩
  | cons s A ih =>
      by_cases hs : s.1 = .newline
      · obtain ⟨Z, hZ, hA⟩ := ih
        rw [pastBreaks_newline hs]
        exact ⟨s :: Z, List.forall_mem_cons.mpr ⟨hs, hZ⟩, congrArg (s :: ·) hA⟩
      · rw [pastBreaks_cons hs]
        exact ⟨[], fun _ hs => absurd hs List.not_mem_nil, rfl⟩

/-- A list behind an argument. -/
theorem padded_behind (hlevel : levels.headD false = true)
    (hY : headKind (pastBreaks Y) = .rightParen ∨
      headKind (pastBreaks Y) = .comma) (hZ : ListBehind Z) :
    Padded called levels Y (Z ++ Y) := by
  obtain ⟨Y₀, hY₀, hsplit⟩ := append_pastBreaks Y
  cases hA : pastBreaks Y with
  | nil =>
      rw [hA] at hY
      rcases hY with hY | hY <;> cases hY
  | cons s C =>
      rw [hA] at hY hsplit
      rcases hY with hs | hs
      · exact .close hs hA hA (Or.inr ⟨hlevel, hZ⟩) (.refl C)
      · -- The list stands between the new comma and the old one.
        obtain ⟨kind, value⟩ := s
        obtain rfl : kind = .comma := hs
        cases hZ with
        | @separated Z Z' L m hZ hZ' hL =>
            have hfront : pastBreaks ((Z ++ (.comma, m) :: (Z' ++ L)) ++ Y) =
                (.comma, m) ::
                  ((Z' ++ (L ++ (Y₀ ++ [(.comma, value)]))) ++ C) := by
              rw [pastBreaks_behind hZ, hsplit]
              simp only [List.append_assoc, List.cons_append, List.nil_append]
            exact .comma rfl rfl hA hfront
              (Or.inr ⟨hlevel, .separated hZ' hL hY₀⟩) (.refl _)

/-- A list in front of an argument, behind a comma. -/
theorem padded_further_slot {m : String} (hlevel : levels.headD false = true)
    (hB : LineBreaks B) (hZ : ListBefore Y Z) :
    Padded called levels ((.comma, m) :: (B ++ Y))
      ((.comma, m) :: (B ++ (Z ++ Y))) := by
  have hline : TokenKind.comma ≠ .newline := by decide
  have hfront : pastBreaks ((.comma, m) :: (B ++ (Z ++ Y))) =
      (.comma, m) :: ((B ++ Z) ++ Y) := by
    rw [List.append_assoc]
    exact pastBreaks_cons hline _
  refine .comma rfl rfl (pastBreaks_cons hline _) hfront
    (Or.inr ⟨hlevel, hZ.breaks hB⟩) ?_
  rw [pastBreaks_append hB]
  exact .refl _

/-- A list as one more argument of a call. -/
theorem padded_addsList {name s : Spelling} (hname : Callee name)
    (hs : s.1 = .leftParen) (hcalled : called (name :: s :: (B ++ Y)))
    (hB : Balanced B) (h : AddsList B Y Z) :
    Padded called levels (name :: s :: (B ++ Y))
      (name :: s :: (B ++ (Z ++ Y))) := by
  have hinside : Padded called (true :: levels) (B ++ Y) (B ++ (Z ++ Y)) →
      Padded called levels (name :: s :: (B ++ Y))
        (name :: s :: ([] ++ (B ++ (Z ++ Y)))) :=
    fun h => .call hname hs hcalled (Or.inl rfl) h.behindBreaks
  cases h with
  | behind hY hZ =>
      refine hinside (.append B ?_)
      rw [nesting_balanced hB]
      exact padded_behind rfl hY hZ
  | before hslot hZ =>
      cases hslot with
      | first hbreaks =>
          rw [← List.append_assoc]
          refine .call hname hs hcalled (Or.inr (hZ.breaks hbreaks)) ?_
          rw [pastBreaks_append hbreaks]
          exact .refl _
      | @further B₀ B₁ m hbreaks =>
          have hlevels := nesting_balanced hB (true :: levels)
          rw [nesting_append, nesting_token rfl rfl, nesting_breaks hbreaks]
            at hlevels
          refine hinside ?_
          rw [List.append_assoc, List.append_assoc]
          refine .append B₀ ?_
          rw [hlevels]
          exact padded_further_slot rfl hbreaks hZ

end

/-! ## Calls that are read as one -/

/-- What makes a statement in front of a parenthesis, or starts an expression
that is one. -/
def StartsStatement (name : Spelling) : Prop :=
  name.1 = .keyword ∧ (name.2 = "strategy" ∨ name.2 = "indicator") ∨
    name.1 = .builtinFunction ∧
      ∃ mark ∈ [inputMark, orderMark, indicatorMark],
        hasMark mark name.2 = true

theorem map_ne_passedOver {α : Type} {m : Nat} {x : Outcome α m}
    {f : α → Statement} {token : Token} {rest : Cursor} {hless : rest.size < m}
    (hf : ∀ a, f a ≠ .passedOver token) :
    x.map f ≠ .done (.passedOver token) rest hless := by
  intro h
  cases x with
  | done a rest _ => exact hf a (Outcome.done.inj h).1
  | failed fault => cases h

theorem weaken_map_ne_passedOver {α : Type} {m n : Nat} {x : Outcome α m}
    {f : α → Statement} {hle : m ≤ n} {token : Token} {rest : Cursor}
    {hless : rest.size < n} (hf : ∀ a, f a ≠ .passedOver token) :
    (x.map f).weaken hle ≠ .done (.passedOver token) rest hless := by
  intro h
  cases x with
  | done a rest _ => exact hf a (Outcome.done.inj h).1
  | failed fault => cases h

/-- **A declaration, an input, an order and an indicator are never passed
over.** -/
theorem parsedCall_of_startsStatement {name : Spelling}
    (h : StartsStatement name) (source : String) (l : String)
    (A : List Spelling) : ParsedCall source (name :: (.leftParen, l) :: A) := by
  rintro d _ hahead ⟨token, pending, hpending, heq⟩
  rw [ahead_pending hpending] at hahead
  obtain ⟨rfl, hbehind⟩ := List.cons.inj hahead
  have hopen : firstKind pending = .leftParen := by
    show firstKind (d.leaving pending).pending = _
    rw [firstKind_eq, hbehind]
    rfl
  unfold statement at heq
  dsimp only at heq
  rcases h with ⟨hkind, hvalue⟩ | ⟨hkind, mark, hmark, hname⟩
  · have hkind : token.kind = .keyword := hkind
    have hvalue : token.value = "strategy" ∨ token.value = "indicator" := hvalue
    rw [hkind] at heq
    dsimp only at heq
    rw [if_pos hvalue] at heq
    refine weaken_map_ne_passedOver ?_ heq
    exact fun _ => nofun
  · have hkind : token.kind = .builtinFunction := hkind
    have hname : hasMark mark token.value = true := hname
    rw [hkind] at heq
    dsimp only at heq
    split_ifs at heq with hinput horder hindicator
    · refine weaken_map_ne_passedOver ?_ heq
      exact fun _ => nofun
    · refine weaken_map_ne_passedOver ?_ heq
      exact fun _ => nofun
    · refine map_ne_passedOver ?_ heq
      exact fun _ => nofun
    · simp only [List.mem_cons, List.not_mem_nil, or_false] at hmark
      rcases hmark with rfl | rfl | rfl
      · exact hinput ⟨hname, hopen⟩
      · exact horder ⟨hname, hopen⟩
      · exact hindicator hname

/-! ## One more argument -/

/-- **A list as one more argument says nothing**, whatever stands in it: the
call is read without it. -/
theorem parse_add_list {source source' : String} {name : Spelling} {l : String}
    {B X Y Z : List Spelling} (hname : Callee name)
    (hsource : spellings source.toList =
      X ++ name :: (.leftParen, l) :: (B ++ Y))
    (hsource' : spellings source'.toList =
      X ++ name :: (.leftParen, l) :: (B ++ (Z ++ Y)))
    (hcall : ParsedCall source (name :: (.leftParen, l) :: (B ++ Y)))
    (hB : Balanced B) (hZ : AddsList B Y Z) {s : Strategy}
    (hs : Strategy.parse source = .ok s) : Strategy.parse source' = .ok s := by
  have hpadded : Padded (· = name :: (.leftParen, l) :: (B ++ Y)) []
      (spellings source.toList) (spellings source'.toList) := by
    rw [hsource, hsource']
    exact .append X (padded_addsList hname rfl rfl hB hZ)
  exact parse_padded hpadded hcall hs

/-- A script with a call over two lines. -/
def sideScript : String :=
  "side = input.string(\"long\",\n  nz(\"Side\"))" ++
    "\nm = ta.sma(close, 3)"

/-- The script with a list of options, in which a parenthesis is closed by a
bracket. -/
def optionsScript : String :=
  "side = input.string(\"long\",\n  nz(\"Side\")" ++
    ", options=[\"long\", (=> ]\n if])\nm = ta.sma(close, 3)"

/-- The arguments in front of the options. -/
def sideArguments : List Spelling :=
  [(.string, "long"), (.comma, ","), (.newline, "\n"),
    (.builtinFunction, "nz"), (.leftParen, "("), (.string, "Side"),
    (.rightParen, ")")]

def sideBehind : List Spelling :=
  [(.rightParen, ")"), (.newline, "\n"), (.identifier, "m"), (.assign, "="),
    (.builtinFunction, "ta.sma"), (.leftParen, "("),
    (.builtinVariable, "close"), (.comma, ","), (.number, "3"),
    (.rightParen, ")")]

def sideOptions : List Spelling :=
  [(.comma, ","), (.identifier, "options"), (.assign, "="),
    (.leftBracket, "["), (.string, "long"), (.comma, ","), (.leftParen, "("),
    (.arrow, "=>"), (.rightBracket, "]"), (.newline, "\n"), (.keyword, "if"),
    (.rightBracket, "]")]

theorem addsList_sideOptions :
    AddsList sideArguments sideBehind sideOptions := by
  have hnone : LineBreaks [] := fun _ hs => absurd hs List.not_mem_nil
  refine .behind (Or.inl rfl) (.separated hnone hnone
    (.named (Or.inl rfl) ⟨"[", "]", [(.string, "long"), (.comma, ","),
      (.leftParen, "("), (.arrow, "=>"), (.rightBracket, "]"),
      (.newline, "\n"), (.keyword, "if")], ?_, rfl⟩))
  exact .token rfl rfl (.token rfl rfl (.enclosed rfl (.token rfl rfl .nil) rfl
    (.token rfl rfl (.token rfl rfl .nil))))

theorem parse_add_list_optionsScript :
    ParsedCall sideScript ((.builtinFunction, "input.string") ::
        (.leftParen, "(") :: (sideArguments ++ sideBehind)) ∧
      Balanced sideArguments ∧
      AddsList sideArguments sideBehind sideOptions ∧
      ∃ s, Strategy.parse sideScript = .ok s ∧
        Strategy.parse optionsScript = .ok s := by
  have hstarts : StartsStatement (.builtinFunction, "input.string") :=
    Or.inr ⟨rfl, inputMark, by decide, by decide⟩
  have hcall := parsedCall_of_startsStatement hstarts sideScript "("
    (sideArguments ++ sideBehind)
  have hbalanced : Balanced sideArguments :=
    .token rfl rfl (.token rfl rfl (.token rfl rfl (.token rfl rfl
      (.enclosed rfl (.token rfl rfl .nil) rfl .nil))))
  refine ⟨hcall, hbalanced, addsList_sideOptions, ?_⟩
  have hsource : spellings sideScript.toList =
      [(.identifier, "side"), (.assign, "=")] ++
        (.builtinFunction, "input.string") :: (.leftParen, "(") ::
          (sideArguments ++ sideBehind) := by
    decide +kernel
  have hsource' : spellings optionsScript.toList =
      [(.identifier, "side"), (.assign, "=")] ++
        (.builtinFunction, "input.string") :: (.leftParen, "(") ::
          (sideArguments ++ (sideOptions ++ sideBehind)) := by
    decide +kernel
  have hparses : (Strategy.parse sideScript).toBool = true := by
    decide +kernel
  obtain ⟨s, hs⟩ := exists_ok_of_toBool hparses
  exact ⟨s, hs, parse_add_list (Or.inl rfl) hsource hsource' hcall
    hbalanced addsList_sideOptions hs⟩

/-- **In a call that is passed over a list is not harmless.** With a name it
is read as an assignment, and no expression starts with a bracket. -/
theorem passed_over_list_fails :
    ¬ ∀ (source source' : String) (name : Spelling) (l : String)
      (B X Y Z : List Spelling), Callee name →
      spellings source.toList = X ++ name :: (.leftParen, l) :: (B ++ Y) →
      spellings source'.toList =
        X ++ name :: (.leftParen, l) :: (B ++ (Z ++ Y)) →
      Balanced B → AddsList B Y Z → ∀ s : Strategy,
        Strategy.parse source = .ok s → Strategy.parse source' = .ok s := by
  intro hclaim
  have hnone : LineBreaks [] := fun _ hs => absurd hs List.not_mem_nil
  have hadds : AddsList [(.builtinVariable, "close")] [(.rightParen, ")")]
      [(.comma, ","), (.identifier, "title"), (.assign, "="),
        (.leftBracket, "["), (.number, "1"), (.rightBracket, "]")] :=
    .behind (Or.inl rfl) (.separated hnone hnone
      (.named (Or.inl rfl) ⟨_, _, [(.number, "1")], .token rfl rfl .nil, rfl⟩))
  have hparses : (Strategy.parse "plot(close)").toBool = true := by
    decide +kernel
  have hfails : (Strategy.parse "plot(close, title=[1])").toBool = false := by
    decide +kernel
  obtain ⟨s, hs⟩ := exists_ok_of_toBool hparses
  have hparse := hclaim "plot(close)" "plot(close, title=[1])"
    (.builtinFunction, "plot") "(" _ [] _ _ (Or.inl rfl)
    (by decide +kernel) (by decide +kernel) (.token rfl rfl .nil) hadds s hs
  rw [hparse] at hfails
  cases hfails

/-! ## Ends of lines -/

/-- Between `X` and `Y` a line may end: behind an opening parenthesis, around
a comma and in front of a closing parenthesis. -/
inductive BreakPlace : List Spelling → List Spelling → Prop where
  | behindOpening {X Y : List Spelling} {l : String} :
      BreakPlace (X ++ [(.leftParen, l)]) Y
  | behindComma {X Y : List Spelling} {m : String} :
      BreakPlace (X ++ [(.comma, m)]) Y
  | beforeComma {X Y : List Spelling} (h : headKind Y = .comma) :
      BreakPlace X Y
  | beforeClosing {X Y : List Spelling} (h : headKind Y = .rightParen) :
      BreakPlace X Y

theorem padded_breaks {called : List Spelling → Prop} {levels : List Bool}
    {X Y Z : List Spelling} (hZ : LineBreaks Z) (h : BreakPlace X Y) :
    Padded called levels (X ++ Y) (X ++ (Z ++ Y)) := by
  have hline : TokenKind.comma ≠ .newline := by decide
  have hbreaks := pastBreaks_append hZ Y
  cases h with
  | @behindOpening X =>
      have hinner : Padded called (false :: nesting levels X) (pastBreaks Y)
          (pastBreaks (Z ++ Y)) := by
        rw [hbreaks]
        exact .refl _
      rw [List.append_assoc, List.append_assoc]
      exact .append X (.group rfl hinner)
  | @behindComma X _ m =>
      rw [List.append_assoc, List.append_assoc]
      have hbehind : pastBreaks ((.comma, m) :: (Z ++ Y)) =
          (.comma, m) :: ([] ++ (Z ++ Y)) := pastBreaks_cons hline _
      have hrest : Padded called (nesting levels X) (pastBreaks Y)
          (pastBreaks (Z ++ Y)) := by
        rw [hbreaks]
        exact .refl _
      exact .append X (.comma rfl rfl (pastBreaks_cons hline _) hbehind
        (Or.inl rfl) hrest)
  | beforeComma hY =>
      cases Y with
      | nil => cases hY
      | cons s A =>
          have hs : s.1 = .comma := hY
          have hA : pastBreaks (s :: A) = s :: ([] ++ A) :=
            pastBreaks_cons (by rw [hs]; decide) A
          exact .append _ (.comma hs hs hA (hbreaks.trans hA) (Or.inl rfl)
            (.refl _))
  | beforeClosing hY =>
      cases Y with
      | nil => cases hY
      | cons s A =>
          have hs : s.1 = .rightParen := hY
          have hA : pastBreaks (s :: A) = s :: A :=
            pastBreaks_cons (by rw [hs]; decide) A
          have hclose : Padded called (nesting levels X) (s :: A)
              ([] ++ (Z ++ s :: A)) :=
            .close hs hA (hbreaks.trans hA) (Or.inl rfl) (.refl A)
          exact .append _ hclose

/-- No piece of the script reaches over the place between `front` and
`behind`. -/
structure Apart (front behind : List Char) : Prop where
  stringsClosed : StringsClosed front
  spelled : spellings (front ++ behind) = spellings front ++ spellings behind

/-- The place between `front` and `behind` in a source stands directly behind a
token that opens a parenthesis or is a comma, or directly in front of a token
that is a comma or closes a parenthesis. -/
inductive BesideMark (source : String) : List Char → List Char → Prop where
  | behind {earlier : List Token} {token : Token} {before rest : List Lexeme}
      {piece : Lexeme}
      (h : token.StandsBehind source earlier before (piece :: rest))
      (hkind : token.kind = .leftParen ∨ token.kind = .comma) :
      BesideMark source (textOf (before ++ [piece])) (textOf rest)
  | before {earlier : List Token} {token : Token}
      {before behind : List Lexeme}
      (h : token.StandsBehind source earlier before behind)
      (hkind : token.kind = .comma ∨ token.kind = .rightParen) :
      BesideMark source (textOf before) (textOf behind)

section

variable {source : String} {front behind : List Char}

theorem BesideMark.source_eq (h : BesideMark source front behind) :
    source.toList = front ++ behind := by
  cases h with
  | behind h _ =>
      rw [h.source_eq, ← textOf_append, ← textOf_append]
      exact congrArg textOf (List.append_cons _ _ _)
  | before h _ => exact h.source_eq

/-- From a mark on the source starts with its piece. -/
theorem pieces_of_mark {earlier : List Token} {token : Token}
    {before behind : List Lexeme}
    (h : token.StandsBehind source earlier before behind)
    (hkind : token.kind = .comma ∨ token.kind = .rightParen) :
    ∃ piece rest, behind = piece :: rest := by
  cases behind with
  | nil =>
      have hend : token.kind = .endOfInput := congrArg Prod.fst h.opens
      rcases hkind with hkind | hkind <;> (rw [hend] at hkind; cases hkind)
  | cons piece rest => exact ⟨piece, rest, rfl⟩

theorem apart_of_lexemes (hclosed : StringsClosed front)
    (h : lexemes (front ++ behind) = lexemes front ++ lexemes behind) :
    Apart front behind :=
  ⟨hclosed, by
    unfold spellings
    rw [h, List.filterMap_append]⟩

/-- **No piece reaches over a place beside a parenthesis or a comma.** -/
theorem BesideMark.apart (h : BesideMark source front behind) :
    Apart front behind := by
  have hsource := h.source_eq
  cases h with
  | behind h hkind =>
      obtain ⟨_, hclosed, hfront, hbehind⟩ :=
        h.cut (TokenKind.isSeam_iff.mpr (hkind.imp_right Or.inr))
      refine apart_of_lexemes hclosed ?_
      rw [← hsource, hfront, hbehind, h.pieces, List.append_assoc]
      rfl
  | before h hkind =>
      obtain ⟨piece, rest, rfl⟩ := pieces_of_mark h hkind
      obtain ⟨⟨hclosed, hfront, hbehind⟩, _⟩ :=
        h.cut (TokenKind.isSeam_iff.mpr (Or.inr hkind.symm))
      refine apart_of_lexemes hclosed ?_
      rw [← hsource, hfront, hbehind, h.pieces]

/-- A line may end there. -/
theorem BesideMark.breakPlace (h : BesideMark source front behind) :
    BreakPlace (spellings front) (spellings behind) := by
  cases h with
  | @behind _ token before rest piece h hkind =>
      obtain ⟨_, _, hfront, _⟩ :=
        h.cut (TokenKind.isSeam_iff.mpr (hkind.imp_right Or.inr))
      have hspelled : spellings (textOf (before ++ [piece])) =
          before.filterMap Lexeme.token? ++ [(token.kind, token.value)] := by
        unfold spellings
        rw [hfront, List.filterMap_append]
        exact congrArg _ (List.filterMap_cons_some h.opens)
      rw [hspelled]
      rcases hkind with hkind | hkind <;> rw [hkind]
      · exact .behindOpening
      · exact .behindComma
  | @before _ token _ _ h hkind =>
      obtain ⟨piece, rest, rfl⟩ := pieces_of_mark h hkind
      obtain ⟨⟨_, _, hbehind⟩, _⟩ :=
        h.cut (TokenKind.isSeam_iff.mpr (Or.inr hkind.symm))
      have hspelled : headKind (spellings (textOf (piece :: rest))) =
          token.kind := by
        unfold spellings
        rw [hbehind, List.filterMap_cons_some h.opens]
        rfl
      rcases hkind with hkind | hkind
      · exact .beforeComma (hspelled.trans hkind)
      · exact .beforeClosing (hspelled.trans hkind)

end

theorem spellings_breaks {front behind : List Char} (h : Apart front behind)
    (n : Nat) :
    ∃ Z, LineBreaks Z ∧
      spellings (front ++ (List.replicate n '\n' ++ behind)) =
        spellings front ++ (Z ++ spellings behind) := by
  have hempty : StringsClosed [] := by
    unfold StringsClosed
    decide +kernel
  have hlines : ∀ n, spellings (List.replicate n '\n' ++ behind) =
      List.replicate n lineBreak ++ spellings behind := by
    intro n
    induction n with
    | zero => rfl
    | succ n ih =>
        have hline := spellings_line hempty
          (List.replicate n '\n' ++ behind)
        rw [spellings_nil, List.nil_append, List.nil_append, ih] at hline
        exact hline
  cases n with
  | zero => exact ⟨[], fun _ hs => absurd hs List.not_mem_nil, h.spelled⟩
  | succ n =>
      refine ⟨List.replicate (n + 1) lineBreak, ?_, ?_⟩
      · intro s hs
        rw [(List.mem_replicate.mp hs).2]
        rfl
      · have hline := spellings_line h.stringsClosed
          (List.replicate n '\n' ++ behind)
        rw [hlines] at hline
        exact hline

/-- **A line may end at the boundaries of arguments**, as often as one likes.
Both conditions hold of every place beside a parenthesis or a comma
(`BesideMark`); blanks and comments may also lie between. -/
theorem parse_add_breaks {front behind : List Char} (h : Apart front behind)
    (hplace : BreakPlace (spellings front) (spellings behind)) (n : Nat)
    {s : Strategy}
    (hs : Strategy.parse (String.ofList (front ++ behind)) = .ok s) :
    Strategy.parse
      (String.ofList (front ++ (List.replicate n '\n' ++ behind))) = .ok s := by
  obtain ⟨Z, hZ, hspelled⟩ := spellings_breaks h n
  have hpadded : Padded (fun _ => False) []
      (spellings (String.ofList (front ++ behind)).toList)
      (spellings (String.ofList
        (front ++ (List.replicate n '\n' ++ behind))).toList) := by
    rw [String.toList_ofList, String.toList_ofList, h.spelled, hspelled]
    exact padded_breaks hZ hplace
  exact parse_padded hpadded (fun _ _ => False.elim) hs

/-- In front of a comma: inside of a call in parentheses in another call, of
which the other argument is dropped. -/
def smaFront : List Char :=
  "m = nz((1 + ta.sma(close".toList

def smaBehind : List Char :=
  ", 3)), [2])".toList

theorem parse_add_breaks_sma :
    Apart smaFront smaBehind ∧
      BreakPlace (spellings smaFront) (spellings smaBehind) ∧
      ∃ s, Strategy.parse (String.ofList (smaFront ++ smaBehind)) = .ok s ∧
        Strategy.parse (String.ofList
          (smaFront ++ (List.replicate 2 '\n' ++ smaBehind))) = .ok s := by
  have hpiece : lexemes smaBehind =
      .symbol .comma [','] :: lexemes smaBehind.tail := by
    decide +kernel
  have hcomma : (⟨.comma, ",", ⟨1, 25⟩⟩ : Token).StandsBehind
      (String.ofList (smaFront ++ smaBehind))
      (tokens (String.ofList smaFront)).dropLast (lexemes smaFront)
      (lexemes smaBehind) := by
    refine ⟨by decide +kernel, by decide +kernel, ?_⟩
    rw [hpiece]
    rfl
  have hbeside : BesideMark (String.ofList (smaFront ++ smaBehind)) smaFront
      smaBehind := by
    simpa only [textOf, flatMap_text_lexemes] using
      BesideMark.before hcomma (Or.inl rfl)
  have hparses : (Strategy.parse
      (String.ofList (smaFront ++ smaBehind))).toBool = true := by
    decide +kernel
  refine ⟨hbeside.apart, hbeside.breakPlace, ?_⟩
  obtain ⟨s, hs⟩ := exists_ok_of_toBool hparses
  exact ⟨s, hs, parse_add_breaks hbeside.apart hbeside.breakPlace 2 hs⟩

end Barscript.Script

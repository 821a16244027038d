import Barscript.Proofs.Decimal.ReadBack
import Barscript.Proofs.Script.Origin
import Barscript.Proofs.Script.Passage
import Barscript.Proofs.Script.Renumber
import Barscript.Proofs.Script.WellFormed
import Barscript.Proofs.Script.Words
import Barscript.Proofs.Session.Transparency
import Barscript.Series.Number

/-!
# Printing and reading again

The printed form of an expression of a script is read as this expression, up to
the identities of its calls (`parse_render`). Where the printed form stands, an
operand stands (`rereads_of_built`): every operation between operands is printed
in parentheses, and what stands in these is a sequence with one operation.

Numbers are read as they were printed (`readText?_plainText`). A text has to be
one that may stand between double quotes.
-/

namespace Barscript.Script

open Barscript.Text Barscript.Decimal Barscript.Series Barscript.Session

/-! ## Constants -/

mutual

/-- The constants in an expression, from left to right. -/
def Expr.literals : Expr → List Literal
  | .literal value => [value]
  | .ref _ => []
  | .call _ _ args => argumentLiterals args
  | .binary _ left right => left.literals ++ right.literals
  | .unary _ operand => operand.literals
  | .ternary condition whenTrue whenFalse =>
    condition.literals ++ (whenTrue.literals ++ whenFalse.literals)
  | .indexed _ offset => offset.literals

/-- The constants in a list of arguments. -/
def argumentLiterals : List (Argument Expr) → List Literal
  | [] => []
  | ⟨_, value⟩ :: rest => value.literals ++ argumentLiterals rest

end

/-- Whether a script can hold the printed form of the constant: a number has to
be finite, and a text is put between double quotes. -/
def Literal.isWritable : Literal → Bool
  | .number x => isFinite x
  | .text s => quotable s.toList
  | .bool _ => true

theorem literals_subset {args : List (Argument Expr)} {a : Argument Expr}
    (h : a ∈ args) : a.value.literals ⊆ argumentLiterals args := by
  induction args with
  | nil => cases h
  | cons b rest ih =>
      rw [argumentLiterals]
      rcases List.mem_cons.mp h with rfl | h
      · exact List.subset_append_left _ _
      · exact List.subset_append_of_subset_right _ (ih h)

/-! ## The same expression -/

/-- The expressions are the same up to the identities of their calls. -/
def Expr.Alike (e f : Expr) : Prop :=
  e.renumber (fun _ => 0) = f.renumber fun _ => 0

/-- The arguments are the same up to the identities of their calls. -/
def ArgumentsAlike (args others : List (Argument Expr)) : Prop :=
  renumberArguments (fun _ => 0) args = renumberArguments (fun _ => 0) others

section

variable {a b c a' b' c' : Expr}

theorem Expr.Alike.binary (op : BinaryOp) (ha : a'.Alike a) (hb : b'.Alike b) :
    (Expr.binary op a' b').Alike (.binary op a b) := by
  unfold Expr.Alike at *
  rw [Expr.renumber, Expr.renumber, ha, hb]

theorem Expr.Alike.unary (op : UnaryOp) (ha : a'.Alike a) :
    (Expr.unary op a').Alike (.unary op a) := by
  unfold Expr.Alike at *
  rw [Expr.renumber, Expr.renumber, ha]

theorem Expr.Alike.ternary (ha : a'.Alike a) (hb : b'.Alike b)
    (hc : c'.Alike c) : (Expr.ternary a' b' c').Alike (.ternary a b c) := by
  unfold Expr.Alike at *
  rw [Expr.renumber, Expr.renumber, ha, hb, hc]

theorem Expr.Alike.indexed (name : String) (ha : a'.Alike a) :
    (Expr.indexed name a').Alike (.indexed name a) := by
  unfold Expr.Alike at *
  rw [Expr.renumber, Expr.renumber, ha]

theorem ArgumentsAlike.call {args args' : List (Argument Expr)} {id id' : Nat}
    (name : String) (h : ArgumentsAlike args' args) :
    (Expr.call id' name args').Alike (.call id name args) := by
  unfold ArgumentsAlike at h
  unfold Expr.Alike
  rw [Expr.renumber, Expr.renumber, h]

theorem ArgumentsAlike.cons {args args' : List (Argument Expr)}
    (name : Option String) (ha : a'.Alike a) (h : ArgumentsAlike args' args) :
    ArgumentsAlike (⟨name, a'⟩ :: args') (⟨name, a⟩ :: args) := by
  unfold ArgumentsAlike at *
  unfold Expr.Alike at ha
  rw [renumberArguments, renumberArguments, ha, h]

end

/-! ## Where a text stands -/

/-- What is left at the cursor is what the text spells. -/
def Cursor.At (c : Cursor) (text : List Char) : Prop :=
  c.ahead = spellings text

section

variable {c : Cursor} {text rest : List Char}

theorem Cursor.At.token {s : Spelling} (h : c.At text)
    (hs : spellings text = s :: spellings rest) :
    ∃ token pending, c.pending = token :: pending ∧ token.spelling = s ∧
      (c.leaving pending).At rest :=
  ahead_cons (h.trans hs)

theorem Cursor.At.eaten {kind : TokenKind} {value : String} (h : c.At text)
    (hs : spellings text = (kind, value) :: spellings rest) :
    ∃ d, Eaten kind c d ∧ d.At rest :=
  eaten_of_ahead (h.trans hs)

theorem Cursor.At.blank (h : c.At (' ' :: rest)) : c.At rest :=
  h.trans (spellings_blank rest)

theorem Eaten.skipNewlines {kind : TokenKind} {d : Cursor}
    (h : Eaten kind c d) (hkind : kind ≠ .newline) :
    Eaten kind c.skipNewlines d := by
  rwa [skipNewlines_eq (by rwa [h.firstKind_eq])]

end

/-! ## Operands that are read again -/

/-- At `c` stands an operand like `e`, and behind it the text `rest`. -/
def Reappears (c : Cursor) (e : Expr) (rest : List Char) : Prop :=
  ∃ e' d, Operand c e' d ∧ d.At rest ∧ e'.Alike e

/-- The expression is read again where its printed form stands. It can stand
behind the equals sign of an argument. -/
structure Rereads (e : Expr) : Prop where
  apart : ∃ first more, e.printed = first :: more ∧
    twoCharKind? '=' first = none
  operand : ∀ (c : Cursor) (rest : List Char), Breaks rest →
    c.At (e.printed ++ rest) → Reappears c e rest

section

variable {c d : Cursor} {e : Expr} {rest : List Char}

/-! ## Constants and names -/

/-- A word of a script is read again. -/
theorem Cursor.At.word {token : Token} (hlexed : Lexed token.spelling)
    (hnaming : token.kind.isNaming = true) (hrest : Breaks rest)
    (h : c.At (token.value.toList ++ rest)) :
    ∃ again pending, c.pending = again :: pending ∧
      again.kind = token.kind ∧ again.value = token.value ∧
      (c.leaving pending).At rest := by
  obtain ⟨hword, hkind⟩ := hlexed.word hnaming
  obtain ⟨again, pending, hpending, hspelling, hbehind⟩ :=
    h.token (spellings_word hword hrest)
  refine ⟨again, pending, hpending, ?_, congrArg Prod.snd hspelling, hbehind⟩
  exact (congrArg Prod.fst hspelling).trans hkind.symm

theorem isNaming_of_isName {token : Token} (h : token.isName = true) :
    token.kind.isNaming = true := by
  unfold Token.isName at h
  cases hkind : token.kind <;> rw [hkind] at h <;> first | rfl | cases h

/-- Being a name is in the class and the value of a token. -/
theorem isName_congr {token again : Token} (hkind : again.kind = token.kind)
    (hvalue : again.value = token.value) : again.isName = token.isName := by
  unfold Token.isName
  rw [hkind, hvalue]

theorem isIndexable_congr {token again : Token}
    (hkind : again.kind = token.kind) :
    again.isIndexable = token.isIndexable := by
  unfold Token.isIndexable
  rw [hkind]

/-- Only signs go on behind an equals sign. -/
theorem twoCharKind?_assign {first : Char} (heq : first ≠ '=')
    (hgreater : first ≠ '>') : twoCharKind? '=' first = none := by
  unfold twoCharKind?
  split <;> first | rfl | contradiction

theorem Lexed.apart {token : Token} (h : Lexed token.spelling)
    (hnaming : token.kind.isNaming = true) (behind : List Char) :
    ∃ first more, token.value.toList ++ behind = first :: more ∧
      twoCharKind? '=' first = none := by
  obtain ⟨⟨first, letters, hletters, hstart, _⟩, _⟩ := h.word hnaming
  have hne : ∀ sign : Char, isWordStart sign = false → first ≠ sign := by
    rintro sign hsign rfl
    rw [hstart] at hsign
    cases hsign
  have hvalue : token.value.toList = first :: letters := hletters
  rw [hvalue]
  exact ⟨first, letters ++ behind, rfl,
    twoCharKind?_assign (hne _ (by decide)) (hne _ (by decide))⟩

theorem rereads_number {token : Token} {x : Float}
    (hlexed : Lexed token.spelling) (hkind : token.kind = .number)
    (hx : readText? token.value = some x)
    (hwritable : (Literal.number x).isWritable = true) :
    Rereads (.literal (.number x)) := by
  have hchars : ∀ c ∈ token.value.toList, c.isDigit = true ∨ c = '.' :=
    hlexed.number hkind
  -- The digits of a script have no sign in front.
  have hsign : (splitSign token.value.toList).1 = false := by
    unfold splitSign
    split
    · rename_i rest htext
      rcases hchars '-' (by rw [htext]; exact List.mem_cons_self ..) with
        h | h <;> cases h
    · rfl
    · rfl
  have hfinite : (!x.isNaN && !x.isInf) = true := hwritable
  rw [Bool.and_eq_true, Bool.not_eq_true', Bool.not_eq_true'] at hfinite
  have htext : NumberText (plain x) :=
    numberText_plain hfinite.1 hfinite.2 (isNegative_of_read? hsign hx)
  constructor
  · obtain ⟨first, more, hfirst, hdigit⟩ := htext.first
    refine ⟨first, more, hfirst, twoCharKind?_assign ?_ ?_⟩
    · rintro rfl
      cases hdigit
    · rintro rfl
      cases hdigit
  · intro c rest hrest hc
    obtain ⟨again, pending, hpending, hspelling, hbehind⟩ :=
      hc.token (spellings_number htext hrest)
    have hvalue : again.value = plainText x := congrArg Prod.snd hspelling
    refine ⟨_, _, .number hpending (congrArg Prod.fst hspelling) ?_, hbehind,
      rfl⟩
    rw [hvalue]
    exact readText?_plainText x

theorem rereads_text {s : String}
    (hwritable : (Literal.text s).isWritable = true) :
    Rereads (.literal (.text s)) := by
  constructor
  · exact ⟨'"', s.toList ++ ['"'], rfl, rfl⟩
  · intro c rest _ hc
    have hc : c.At ('"' :: (s.toList ++ ['"'] ++ rest)) := hc
    rw [List.append_assoc] at hc
    obtain ⟨again, pending, hpending, hspelling, hbehind⟩ :=
      hc.token (spellings_text hwritable rest)
    refine ⟨_, _, .text hpending (congrArg Prod.fst hspelling), hbehind, ?_⟩
    have hvalue : again.value = String.ofList s.toList :=
      congrArg Prod.snd hspelling
    rw [hvalue, String.ofList_toList]
    rfl

theorem rereads_bool (b : Bool) : Rereads (.literal (.bool b)) := by
  constructor
  · cases b <;> exact ⟨_, _, rfl, rfl⟩
  · intro c rest hrest hc
    obtain ⟨again, pending, hpending, hspelling, hbehind⟩ :=
      hc.token (spellings_bool b hrest)
    refine ⟨_, _, .bool hpending (congrArg Prod.fst hspelling), hbehind, ?_⟩
    have hvalue : again.value = String.ofList (boolText b) :=
      congrArg Prod.snd hspelling
    have hsame : (again.value == "true") = b := by
      rw [hvalue]
      cases b <;> decide
    rw [hsame]
    rfl

theorem rereads_name {token : Token} (hlexed : Lexed token.spelling)
    (hname : token.isName = true) : Rereads (.ref token.value) := by
  have hnaming := isNaming_of_isName hname
  constructor
  · have hapart := hlexed.apart hnaming []
    rwa [List.append_nil] at hapart
  · intro c rest hrest hc
    obtain ⟨again, pending, hpending, hkind, hvalue, hbehind⟩ :=
      Cursor.At.word hlexed hnaming hrest hc
    refine ⟨_, _, .name hpending ?_, hbehind, ?_⟩
    · rwa [isName_congr hkind hvalue]
    · rw [hvalue]
      rfl

/-! ## Operations -/

theorem rereads_unary {op : UnaryOp} (h : Rereads e) :
    Rereads (.unary op e) := by
  constructor
  · cases op <;> exact ⟨_, _, rfl, rfl⟩
  · intro c rest hrest hc
    have hc : c.At (op.symbol ++ e.printed ++ rest) := hc
    rw [List.append_assoc] at hc
    obtain ⟨s, hop, hspells⟩ := spellings_unary op (e.printed ++ rest)
    obtain ⟨again, pending, hpending, hspelling, hbehind⟩ := hc.token hspells
    obtain ⟨e', d, hinner, hd, halike⟩ := h.operand _ rest hrest hbehind
    refine ⟨_, d, .unary hpending ?_ hinner, hd, halike.unary op⟩
    have hkind : again.kind = s.1 := congrArg Prod.fst hspelling
    rwa [hkind]

/-- What is printed in parentheses is read as it is in them. -/
theorem rereads_group {inner : List Char}
    (hprinted : e.printed = '(' :: (inner ++ [')']))
    (h : ∀ (c : Cursor) (rest : List Char), c.At (inner ++ ')' :: rest) →
      ∃ e' d, Formula c e' d ∧ d.At (')' :: rest) ∧ e'.Alike e) :
    Rereads e := by
  constructor
  · exact ⟨'(', _, hprinted, rfl⟩
  · intro c rest _ hc
    rw [hprinted, List.cons_append, List.append_assoc] at hc
    obtain ⟨token, pending, hpending, hspelling, hinner⟩ :=
      hc.token (@spellings_lone '(' .leftParen rfl _)
    obtain ⟨e', d, hformula, hd, halike⟩ := h _ rest hinner
    obtain ⟨d', hclose, hd'⟩ :=
      hd.eaten (@spellings_lone ')' .rightParen rfl rest)
    have hline := hformula.skipNewlines_eq
    rw [← hline] at hformula
    exact ⟨e', d', .group hpending (congrArg Prod.fst hspelling) hformula
      (hclose.skipNewlines nofun), hd', halike⟩

theorem rereads_binary {op : BinaryOp} {left right : Expr}
    (hleft : Rereads left) (hright : Rereads right) :
    Rereads (.binary op left right) := by
  have hblank (text : List Char) := breaks_cons (c := ' ') rfl text
  have hparen (text : List Char) := breaks_cons (c := ')') rfl text
  refine @rereads_group _
    (left.printed ++ ' ' :: op.symbol ++ ' ' :: right.printed) ?_ ?_
  · rw [Expr.printed]
    rfl
  · intro c rest hc
    simp only [List.append_assoc, List.cons_append] at hc
    obtain ⟨l, d, hl, hd, hlalike⟩ := hleft.operand c _ (hblank _) hc
    obtain ⟨kind, ⟨level, hlevel⟩, hspells⟩ :=
      spellings_operator op (right.printed ++ ')' :: rest)
    obtain ⟨token, pending, hpending, hspelling, hbehind⟩ :=
      hd.blank.token hspells
    obtain ⟨r, d', hr, hd', hralike⟩ :=
      hright.operand _ _ (hparen rest) hbehind
    have hkind : token.kind = kind := congrArg Prod.fst hspelling
    have hsequence : Sequence c
        (Grouping.binary op (.operand l) (.operand r)).elements d' :=
      .operand hl (.operator hpending (by rwa [hkind]) (.operand hr .ended))
    exact ⟨.binary op l r, d',
      .grouped hsequence (Grouping.ordered_binary op l r), hd',
      hlalike.binary op hralike⟩

theorem rereads_ternary {condition whenTrue whenFalse : Expr}
    (hcondition : Rereads condition) (htrue : Rereads whenTrue)
    (hfalse : Rereads whenFalse) :
    Rereads (.ternary condition whenTrue whenFalse) := by
  have hblank (text : List Char) := breaks_cons (c := ' ') rfl text
  have hparen (text : List Char) := breaks_cons (c := ')') rfl text
  refine @rereads_group _
    (condition.printed ++ ' ' :: '?' :: ' ' :: (whenTrue.printed ++
      ' ' :: ':' :: ' ' :: whenFalse.printed)) ?_ ?_
  · rw [Expr.printed]
    simp only [List.append_assoc, List.cons_append, List.nil_append]
  · intro c rest hc
    simp only [List.append_assoc, List.cons_append] at hc
    obtain ⟨e₀, d₀, h₀, hd₀, halike₀⟩ := hcondition.operand c _ (hblank _) hc
    obtain ⟨d₁, hquestion, hd₁⟩ :=
      hd₀.blank.eaten (@spellings_lone '?' .question rfl _)
    obtain ⟨e₁, d₂, h₁, hd₂, halike₁⟩ :=
      htrue.operand d₁ _ (hblank _) hd₁.blank
    obtain ⟨d₃, hcolon, hd₃⟩ := hd₂.blank.eaten (spellings_colon _)
    obtain ⟨e₂, d₄, h₂, hd₄, halike₂⟩ :=
      hfalse.operand d₃ _ (hparen rest) hd₃.blank
    have hsequence : Sequence c (Grouping.ternary (.operand e₀) (.operand e₁)
        (.operand e₂)).elements d₄ :=
      .operand h₀ (.ternary hquestion (.operand h₁ .ended) hcolon
        (.operand h₂ .ended))
    exact ⟨.ternary e₀ e₁ e₂, d₄,
      .grouped hsequence (Grouping.ordered_ternary e₀ e₁ e₂), hd₄,
      halike₀.ternary halike₁ halike₂⟩

/-! ## Calls -/

/-- The equals sign of an argument does not go on into its value. -/
theorem Rereads.assign (h : Rereads e) (rest : List Char) :
    spellings ('=' :: e.printed ++ rest) =
      (.assign, "=") :: spellings (e.printed ++ rest) := by
  obtain ⟨first, more, hfirst, htwo⟩ := h.apart
  rw [List.cons_append]
  apply spellings_mark rfl (by decide) (by decide)
  rintro d hd
  rw [hfirst] at hd
  cases hd
  exact htwo

/-- An argument is read again. Behind it stands what ends it. -/
theorem slot_of_printed {a : Argument Expr}
    (hname : NamedFrom (fun token => Lexed token.spelling) a.name)
    (hvalue : Rereads a.value) (hrest : Breaks rest)
    (hstops : Stops (spellings rest)) (hc : c.At (printedArgument a ++ rest)) :
    ∃ value d, Slot c.skipNewlines [⟨a.name, value⟩] d ∧ d.At rest ∧
      value.Alike a.value := by
  obtain ⟨name, value⟩ := a
  cases name with
  | none =>
      rw [printedArgument] at hc
      obtain ⟨value', d, hoperand, hd, halike⟩ :=
        hvalue.operand c rest hrest hc
      have hslot := hoperand.formula.slot (atEnd_of_stops hd hstops)
      rw [← hoperand.formula.skipNewlines_eq] at hslot
      exact ⟨value', d, hslot, hd, halike⟩
  | some name =>
      obtain ⟨token, hlexed, hkind, rfl⟩ := hname name rfl
      have hnaming : token.kind.isNaming = true := by
        rcases hkind with hkind | hkind <;> rw [hkind] <;> rfl
      rw [printedArgument, List.append_assoc] at hc
      obtain ⟨word, pending, hpending, hword, hsame, hbehind⟩ :=
        Cursor.At.word hlexed hnaming (breaks_cons (c := '=') rfl _) hc
      obtain ⟨sign, pending', hpending', hsign, hat⟩ :=
        hbehind.token (hvalue.assign rest)
      have hboth : c.pending = word :: sign :: pending' :=
        hpending.trans (congrArg _ hpending')
      obtain ⟨value', d, hoperand, hd, halike⟩ :=
        hvalue.operand _ rest hrest hat
      rw [← hword] at hkind
      have hslot := hoperand.formula.namedSlot hboth hkind
        (congrArg Prod.fst hsign)
      have hline : c.skipNewlines = c := by
        apply skipNewlines_eq
        rw [hboth, firstKind]
        rcases hkind with hkind | hkind <;> rw [hkind] <;> nofun
      rw [hsame, ← hline] at hslot
      exact ⟨value', d, hslot, hd, halike⟩

/-- The arguments of a call are read again, up to the parenthesis that closes
it. -/
theorem slots_of_printed {a : Argument Expr} {more : List (Argument Expr)}
    (hnames : ∀ b ∈ a :: more,
      NamedFrom (fun token => Lexed token.spelling) b.name)
    (hvalues : ∀ b ∈ a :: more, Rereads b.value)
    (hc : c.At (printedArguments (a :: more) ++ ')' :: rest)) :
    ∃ value args d d', Slot c.skipNewlines [⟨a.name, value⟩] d ∧
      FurtherSlots d args d' ∧ d'.At rest ∧
      ArgumentsAlike (⟨a.name, value⟩ :: args) (a :: more) := by
  rw [List.forall_mem_cons] at hnames hvalues
  induction more generalizing a c with
  | nil =>
      have hstops : Stops (spellings (')' :: rest)) := by
        rw [@spellings_lone ')' .rightParen rfl]
        rfl
      rw [printedArguments] at hc
      obtain ⟨value, d, hslot, hd, halike⟩ := slot_of_printed hnames.1
        hvalues.1 (breaks_cons (c := ')') rfl rest) hstops hc
      obtain ⟨d', hclose, hd'⟩ :=
        hd.eaten (@spellings_lone ')' .rightParen rfl rest)
      exact ⟨value, [], d, d', hslot, .closed (hclose.skipNewlines nofun), hd',
        ArgumentsAlike.cons a.name halike rfl⟩
  | cons b more ih =>
      have hstops : ∀ text, Stops (spellings (',' :: text)) := by
        intro text
        rw [@spellings_lone ',' .comma rfl]
        rfl
      rw [printedArguments] at hc
      simp only [List.append_assoc, List.cons_append] at hc
      obtain ⟨value, d, hslot, hd, halike⟩ := slot_of_printed hnames.1
        hvalues.1 (breaks_cons (c := ',') rfl _) (hstops _) hc
      obtain ⟨d₁, hcomma, hd₁⟩ := hd.eaten (@spellings_lone ',' .comma rfl _)
      obtain ⟨next, args, d₂, d₃, hnext, hargs, hd₃, hothers⟩ :=
        ih (List.forall_mem_cons.mp hnames.2) (List.forall_mem_cons.mp hvalues.2)
          hd₁.blank
      exact ⟨value, _, d, d₃, hslot,
        .next (hcomma.skipNewlines nofun) hnext hargs, hd₃,
        ArgumentsAlike.cons a.name halike hothers⟩

theorem rereads_call {token : Token} {id : Nat} {args : List (Argument Expr)}
    (hlexed : Lexed token.spelling) (hname : token.isName = true)
    (hnames : ∀ a ∈ args,
      NamedFrom (fun token => Lexed token.spelling) a.name)
    (hvalues : ∀ a ∈ args, Rereads a.value) :
    Rereads (.call id token.value args) := by
  have hnaming := isNaming_of_isName hname
  constructor
  · rw [Expr.printed, List.append_assoc]
    exact hlexed.apart hnaming _
  · intro c rest _ hc
    rw [Expr.printed] at hc
    simp only [List.append_assoc, List.cons_append, List.nil_append] at hc
    obtain ⟨again, pending, hpending, hkind, hvalue, hbehind⟩ :=
      Cursor.At.word hlexed hnaming (breaks_cons (c := '(') rfl _) hc
    obtain ⟨bracket, pending', hpending', hspelling, hinner⟩ :=
      hbehind.token (@spellings_lone '(' .leftParen rfl _)
    have hboth : c.pending = again :: bracket :: pending' :=
      hpending.trans (congrArg _ hpending')
    have hagain : again.isName = true := by
      rwa [isName_congr hkind hvalue]
    have hslots : ∃ args' d, Slots (c.leaving pending') args' d ∧ d.At rest ∧
        ArgumentsAlike args' args := by
      cases args with
      | nil =>
          obtain ⟨d, hclose, hd⟩ :=
            hinner.eaten (@spellings_lone ')' .rightParen rfl rest)
          exact ⟨[], d, .empty (hclose.skipNewlines nofun), hd, rfl⟩
      | cons a more =>
          obtain ⟨value, others, d, d', hfirst, hothers, hd, halike⟩ :=
            slots_of_printed hnames hvalues hinner
          exact ⟨_, d', .first hfirst hothers, hd, halike⟩
    obtain ⟨args', d, hslots, hd, halike⟩ := hslots
    refine ⟨_, _, .call hboth hagain (congrArg Prod.fst hspelling) hslots, hd,
      ?_⟩
    rw [hvalue]
    exact halike.call _

theorem rereads_indexed {token : Token} (hlexed : Lexed token.spelling)
    (hname : token.isIndexable = true) (h : Rereads e) :
    Rereads (.indexed token.value e) := by
  have hnaming := isNaming_of_isName (isName_of_isIndexable hname)
  constructor
  · rw [Expr.printed, List.append_assoc]
    exact hlexed.apart hnaming _
  · intro c rest _ hc
    rw [Expr.printed] at hc
    simp only [List.append_assoc, List.cons_append, List.nil_append] at hc
    obtain ⟨again, pending, hpending, hkind, hvalue, hbehind⟩ :=
      Cursor.At.word hlexed hnaming (breaks_cons (c := '[') rfl _) hc
    obtain ⟨bracket, pending', hpending', hspelling, hoffset⟩ :=
      hbehind.token (@spellings_lone '[' .leftBracket rfl _)
    have hpending' : pending = bracket :: pending' := hpending'
    obtain ⟨e', d, hinner, hd, halike⟩ :=
      h.operand _ _ (breaks_cons (c := ']') rfl rest) hoffset
    obtain ⟨d', hclose, hd'⟩ :=
      hd.eaten (@spellings_lone ']' .rightBracket rfl rest)
    refine ⟨.indexed again.value e', d',
      .index (hpending.trans (congrArg _ hpending')) ?_
        (congrArg Prod.fst hspelling) hinner.formula hclose, hd', ?_⟩
    · rwa [isIndexable_congr hkind]
    · rw [hvalue]
      exact halike.indexed _

/-- **The printed form of an expression is read as the expression**, if it is
put together from tokens that were read. -/
theorem rereads_of_built
    (h : Built (fun token => Lexed token.spelling) e)
    (hwritable : ∀ value ∈ e.literals, value.isWritable = true) :
    Rereads e := by
  induction h with
  | number hlexed hkind hx =>
      exact rereads_number hlexed hkind hx (hwritable _ (List.mem_singleton_self _))
  | text _ _ => exact rereads_text (hwritable _ (List.mem_singleton_self _))
  | @bool b => exact rereads_bool b
  | name hlexed hname => exact rereads_name hlexed hname
  | call hlexed hname hnames _ ih =>
      apply rereads_call hlexed hname hnames
      intro a ha
      exact ih a ha fun value hvalue => hwritable value (literals_subset ha hvalue)
  | binary _ _ ihleft ihright =>
      rw [Expr.literals, List.forall_mem_append] at hwritable
      exact rereads_binary (ihleft hwritable.1) (ihright hwritable.2)
  | unary _ ih => exact rereads_unary (ih hwritable)
  | ternary _ _ _ ihcondition ihtrue ihfalse =>
      rw [Expr.literals, List.forall_mem_append, List.forall_mem_append]
        at hwritable
      exact rereads_ternary (ihcondition hwritable.1) (ihtrue hwritable.2.1)
        (ihfalse hwritable.2.2)
  | indexed hlexed hname _ ih => exact rereads_indexed hlexed hname (ih hwritable)

end

/-! ## Scripts -/

section

variable {T : Token → Prop} {e f : Expr}

theorem Built.piece (h : Built T e) (hpiece : Piece true e f) : Built T f := by
  cases hpiece with
  | definition _ h => cases h
  | offset =>
      cases h with
      | indexed _ _ h => exact h
  | argument _ ha =>
      cases h with
      | call _ _ _ hvalues => exact hvalues _ ha
  | left =>
      cases h with
      | binary hleft _ => exact hleft
  | right =>
      cases h with
      | binary _ hright => exact hright
  | operand =>
      cases h with
      | unary h => exact h
  | condition =>
      cases h with
      | ternary hcondition _ _ => exact hcondition
  | whenTrue =>
      cases h with
      | ternary _ htrue _ => exact htrue
  | whenFalse =>
      cases h with
      | ternary _ _ hfalse => exact hfalse

/-- What belongs to a script is put together from tokens that were read. -/
theorem built_of_belongs {source : String} {s : Strategy}
    (h : Strategy.parse source = .ok s) (he : Belongs s e) :
    Built (fun token => Lexed token.spelling) e := by
  obtain ⟨root, hroot, hpieces⟩ := he
  induction hpieces with
  | refl => exact built_of_parse h (fun _ => lexed_tokens) hroot
  | tail _ hpiece ih => exact ih.piece hpiece

theorem statement_assignment {c : Cursor} {word sign : Token}
    {pending : List Token} (h : c.pending = word :: sign :: pending)
    (hword : word.kind = .identifier) (hsign : sign.kind = .assign) :
    ∃ hle, statement word c (sign :: pending) h =
      ((expression (c.leaving pending)).map
        (.assignment word.value)).weaken hle := by
  have hfirst : firstKind (sign :: pending) = .assign := hsign
  refine ⟨Cursor.size_leaving_tail_le h, ?_⟩
  unfold statement
  rw [hword]
  exact if_pos (Or.inl hfirst)

/-- A script of one definition, of which an operand is left. -/
theorem statements_definition {c d : Cursor} {word sign : Token}
    {pending : List Token} (h : c.pending = word :: sign :: pending)
    (hword : word.kind = .identifier) (hsign : sign.kind = .assign)
    (hoperand : Operand (c.leaving pending) e d) (hd : d.pending = []) :
    statements c = .ok [.assignment word.value e] := by
  have hend : d.AtEnd := by
    unfold Cursor.AtEnd
    rw [hd]
    rfl
  obtain ⟨_, hread⟩ := hoperand.formula.expression_eq hend
  obtain ⟨_, hstatement⟩ := statement_assignment h hword hsign
  rw [hread] at hstatement
  have hpasses := Passes.statement h hstatement
  unfold Passes at hpasses
  rw [hpasses, statements_nil hd]
  rfl

end

/-- **Printing and reading again** gives an expression of a script back, up to
the identities of its calls. -/
theorem parse_render {source : String} {s : Strategy} {e : Expr}
    (h : Strategy.parse source = .ok s) (he : Belongs s e)
    (hwritable : ∀ value ∈ e.literals, value.isWritable = true) :
    ∃ s' e', Strategy.parse ("x = " ++ e.render) = .ok s' ∧
      s'.definitions["x"]? = some e' ∧ e'.Alike e := by
  have hread := rereads_of_built (built_of_belongs h he) hwritable
  -- The tokens in front of the printed form.
  have htext : ("x = " ++ e.render).toList =
      ['x'] ++ ' ' :: '=' :: ' ' :: e.printed := by
    rw [String.toList_append, Expr.render, String.toList_ofList,
      String.toList_ofList]
    rfl
  have hstart : (Cursor.ofSource ("x = " ++ e.render)).At
      (['x'] ++ ' ' :: '=' :: ' ' :: e.printed) := by
    unfold Cursor.At
    rw [ahead_ofSource, htext]
  obtain ⟨word, pending, hpending, hword, hat⟩ := hstart.token
    (@spellings_letters 'x' [] rfl rfl _ (breaks_cons (c := ' ') rfl _))
  obtain ⟨sign, pending', hpending', hsign, hat'⟩ :=
    hat.blank.token (spellings_mark rfl (by decide) (by decide) (by
      rintro d hd
      cases hd
      rfl))
  have hexpr := hat'.blank
  rw [← List.append_nil e.printed] at hexpr
  obtain ⟨e', d, hoperand, hd, halike⟩ :=
    hread.operand _ [] (fun _ hc => by cases hc) hexpr
  have hend : d.pending = [] := by
    rw [Cursor.At, spellings_nil] at hd
    exact List.map_eq_nil_iff.mp hd
  have hkind : word.kind = .identifier := congrArg Prod.fst hword
  have hvalue : word.value = "x" := congrArg Prod.snd hword
  have hall := statements_definition (hpending.trans (congrArg _ hpending'))
    hkind (congrArg Prod.fst hsign) hoperand hend
  rw [hvalue] at hall
  refine ⟨Strategy.empty.add (.assignment "x" e'), e', ?_, ?_, halike⟩
  · unfold Strategy.parse statementsOf
    rw [hall]
    rfl
  · rw [definitions_assignment, Std.ExtTreeMap.getElem?_insert_self]

/-- A script with a definition of many kinds of expressions. -/
def writtenScript : String :=
  "v = nz(close[1], fallback=-2.5) > 3 ? not flag : \"up\" == 'down'"

/-- Its definition is printed with all parentheses. -/
theorem parse_render_writtenScript :
    ∃ s e, Strategy.parse writtenScript = .ok s ∧
      s.definitions["v"]? = some e ∧
      e.render = "((nz(close[1], fallback=-2.5) > 3) ? not flag : " ++
        "(\"up\" == \"down\"))" ∧
      ∃ s' e', Strategy.parse ("x = " ++ e.render) = .ok s' ∧
        s'.definitions["x"]? = some e' ∧ e'.Alike e := by
  have hcheck : ((Strategy.parse writtenScript).toOption.bind
      fun s => s.definitions["v"]?).map (fun e => (e.render,
        e.literals.all Literal.isWritable)) =
      some ("((nz(close[1], fallback=-2.5) > 3) ? not flag : " ++
        "(\"up\" == \"down\"))", true) := by
    decide +kernel
  obtain ⟨e, he, hfacts⟩ := Option.map_eq_some_iff.mp hcheck
  obtain ⟨s, hs, hdefinition⟩ := Option.bind_eq_some_iff.mp he
  have hparse : Strategy.parse writtenScript = .ok s := by
    cases hparse : Strategy.parse writtenScript with
    | error fault =>
        rw [hparse] at hs
        cases hs
    | ok s' =>
        rw [hparse] at hs
        cases hs
        rfl
  obtain ⟨hrender, hwritable⟩ := Prod.mk.inj hfacts
  rw [List.all_eq_true] at hwritable
  refine ⟨s, e, hparse, hdefinition, hrender, ?_⟩
  exact parse_render hparse ⟨e, .definition hdefinition, .refl⟩ hwritable

end Barscript.Script

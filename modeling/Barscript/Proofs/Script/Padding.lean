import Barscript.Proofs.Script.WellFormed

/-!
# Padding

What a script may hold besides what it says: ends of lines behind an opening
parenthesis, around a comma and in front of a closing parenthesis, and lists
in brackets among the arguments of a call. `Padded` relates what is left of a
script to what is left of it with such padding. It goes from token to token
and knows nothing of the grammar, so it also relates what is never read as an
expression. What no padding is put in front of stands first in both
(`Padded.cons`), and any tokens may stand in front of both (`Padded.append`).
-/

namespace Barscript.Script

/-! ## What is added -/

/-- Ends of lines. -/
def LineBreaks (Z : List Spelling) : Prop :=
  ∀ s ∈ Z, s.1 = .newline

def TokenKind.isOpening : TokenKind → Bool
  | .leftParen | .leftBracket => true
  | _ => false

def TokenKind.isClosing : TokenKind → Bool
  | .rightParen | .rightBracket => true
  | _ => false

/-- What is opened is closed. Which of the two brackets closes it does not
matter. -/
inductive Balanced : List Spelling → Prop where
  | nil : Balanced []
  | token {s : Spelling} {B : List Spelling} (h : s.1.isOpening = false)
      (h' : s.1.isClosing = false) (rest : Balanced B) : Balanced (s :: B)
  | enclosed {s t : Spelling} {B C : List Spelling}
      (h : s.1.isOpening = true) (inner : Balanced B)
      (h' : t.1.isClosing = true) (rest : Balanced C) :
      Balanced (s :: (B ++ t :: C))

/-- A list in brackets. -/
def BracketList (L : List Spelling) : Prop :=
  ∃ l r B, Balanced B ∧
    L = (.leftBracket, l) :: (B ++ [(.rightBracket, r)])

/-- A list in brackets, with or without the name of an argument. The name is an
identifier or a keyword, as the reader takes the names of arguments: a word of
another class in front of a sign is not taken for a name (`splitName`). -/
inductive ListArgument : List Spelling → Prop where
  | plain {L : List Spelling} (h : BracketList L) : ListArgument L
  | named {word : Spelling} {m : String} {L : List Spelling}
      (hword : word.1 = .identifier ∨ word.1 = .keyword) (h : BracketList L) :
      ListArgument (word :: (.assign, m) :: L)

/-- A list to be put in front of `A`, where an argument may start: with a
comma behind it, or as the last argument. -/
inductive ListBefore (A : List Spelling) : List Spelling → Prop where
  | separated {Z L Z' : List Spelling} {m : String} (hZ : LineBreaks Z)
      (hL : ListArgument L) (hZ' : LineBreaks Z') :
      ListBefore A (Z ++ (L ++ (Z' ++ [(.comma, m)])))
  | last {Z L : List Spelling} (hZ : LineBreaks Z) (hL : ListArgument L)
      (hA : headKind (pastBreaks A) = .rightParen) : ListBefore A (Z ++ L)

/-- A list to be put behind an argument. -/
inductive ListBehind : List Spelling → Prop where
  | separated {Z Z' L : List Spelling} {m : String} (hZ : LineBreaks Z)
      (hZ' : LineBreaks Z') (hL : ListArgument L) :
      ListBehind (Z ++ (.comma, m) :: (Z' ++ L))

/-- What may be called: a name, or a word that declares a script. -/
def Callee (s : Spelling) : Prop :=
  Spelling.isName s = true ∨
    s.1 = .keyword ∧ (s.2 = "strategy" ∨ s.2 = "indicator")

/-- The classes of words. -/
def TokenKind.isWord : TokenKind → Bool
  | .identifier | .keyword | .builtinVariable | .builtinFunction => true
  | _ => false

theorem Callee.isWord {s : Spelling} (h : Callee s) : s.1.isWord = true := by
  rcases h with h | ⟨hkind, _⟩
  · unfold Spelling.isName Token.isName at h
    cases hkind : s.1 <;> rw [hkind] at h <;> first | rfl | cases h
  · rw [hkind]
    rfl

theorem Callee.ne {s : Spelling} (h : Callee s) {kind : TokenKind}
    (hkind : kind.isWord = false) : s.1 ≠ kind :=
  ne_of_apply_ne TokenKind.isWord (by rw [h.isWord, hkind]; decide)

theorem Callee.isMark {s : Spelling} (h : Callee s) : s.1.isMark = false := by
  have hword := h.isWord
  cases hkind : s.1 <;> rw [hkind] at hword <;> first | rfl | cases hword

/-! ## Padded scripts -/

/-- Where `A` is left of a script, `A'` is left of the script with padding.
For each bracket that is open, the innermost first, `levels` says whether lists
are added in it: only in a call that is among `called`. -/
inductive Padded (called : List Spelling → Prop) :
    List Bool → List Spelling → List Spelling → Prop where
  | nil {levels : List Bool} : Padded called levels [] []
  | token {levels : List Bool} {s : Spelling} {A A' : List Spelling}
      (h : s.1.isMark = false) (rest : Padded called levels A A') :
      Padded called levels (s :: A) (s :: A')
  | index {levels : List Bool} {s : Spelling} {A A' : List Spelling}
      (h : s.1 = .leftBracket) (rest : Padded called (false :: levels) A A') :
      Padded called levels (s :: A) (s :: A')
  | unindex {levels : List Bool} {s : Spelling} {A A' : List Spelling}
      (h : s.1 = .rightBracket) (rest : Padded called levels.tail A A') :
      Padded called levels (s :: A) (s :: A')
  | group {levels : List Bool} {s : Spelling} {A A' : List Spelling}
      (h : s.1 = .leftParen)
      (rest : Padded called (false :: levels) (pastBreaks A) (pastBreaks A')) :
      Padded called levels (s :: A) (s :: A')
  | call {levels : List Bool} {name s : Spelling} {A Z A' : List Spelling}
      (hname : Callee name) (h : s.1 = .leftParen)
      (hcalled : called (name :: s :: A)) (hZ : Z = [] ∨ ListBefore A Z)
      (rest : Padded called (true :: levels) (pastBreaks A) (pastBreaks A')) :
      Padded called levels (name :: s :: A) (name :: s :: (Z ++ A'))
  | close {levels : List Bool} {s : Spelling} {A A' B B' Z : List Spelling}
      (h : s.1 = .rightParen) (hA : pastBreaks A = s :: B)
      (hA' : pastBreaks A' = s :: B')
      (hZ : Z = [] ∨ levels.headD false = true ∧ ListBehind Z)
      (rest : Padded called levels.tail B B') :
      Padded called levels A (Z ++ A')
  | comma {levels : List Bool} {s s' : Spelling} {A A' B Z B' : List Spelling}
      (h : s.1 = .comma) (h' : s'.1 = .comma) (hA : pastBreaks A = s :: B)
      (hA' : pastBreaks A' = s' :: (Z ++ B'))
      (hZ : Z = [] ∨ levels.headD false = true ∧ ListBefore B Z)
      (rest : Padded called levels (pastBreaks B) (pastBreaks B')) :
      Padded called levels A A'

/-- An argument may start here, and a list may have been put in front. -/
def PaddedSlot (called : List Spelling → Prop) (levels : List Bool)
    (A A' : List Spelling) : Prop :=
  ∃ Z B', A' = Z ++ B' ∧
    (Z = [] ∨ levels.headD false = true ∧ ListBefore A Z) ∧
    Padded called levels (pastBreaks A) (pastBreaks B')

/-- What is left behind a word. -/
inductive PaddedBehind (called : List Spelling → Prop) (levels : List Bool) :
    List Spelling → List Spelling → Prop where
  | plain {A A' : List Spelling} (h : headKind A ≠ .leftParen)
      (rest : Padded called levels A A') : PaddedBehind called levels A A'
  | opening {b : Bool} {s : Spelling} {A A' : List Spelling}
      (h : s.1 = .leftParen) (args : PaddedSlot called (b :: levels) A A') :
      PaddedBehind called levels (s :: A) (s :: A')

/-- What is left behind a token that is no closing parenthesis and no comma. -/
def PaddedFrom (called : List Spelling → Prop) (levels : List Bool)
    (s : Spelling) (A A' : List Spelling) : Prop :=
  match s.1 with
  | .leftParen => Padded called (false :: levels) (pastBreaks A) (pastBreaks A')
  | .leftBracket => Padded called (false :: levels) A A'
  | .rightBracket => Padded called levels.tail A A'
  | _ => PaddedBehind called levels A A' ∧
    (¬ (Callee s ∧ called (s :: A)) → Padded called levels A A')

section

variable {called : List Spelling → Prop} {levels : List Bool} {s : Spelling}
  {A A' Z : List Spelling}

/-! ## Ends of lines -/

theorem pastBreaks_cons (h : s.1 ≠ .newline) (A : List Spelling) :
    pastBreaks (s :: A) = s :: A :=
  List.dropWhile_cons_of_neg (by simpa using h)

theorem pastBreaks_newline (h : s.1 = .newline) (A : List Spelling) :
    pastBreaks (s :: A) = pastBreaks A :=
  List.dropWhile_cons_of_pos (by simpa using h)

theorem pastBreaks_append (hZ : LineBreaks Z) (A : List Spelling) :
    pastBreaks (Z ++ A) = pastBreaks A := by
  induction Z with
  | nil => rfl
  | cons s rest ih =>
      rw [List.cons_append, pastBreaks_newline (hZ s (List.mem_cons_self ..))]
      exact ih fun t ht => hZ t (List.mem_cons_of_mem _ ht)

theorem headKind_pastBreaks (A : List Spelling) :
    headKind (pastBreaks A) ≠ .newline := by
  induction A with
  | nil => exact (by decide : TokenKind.endOfInput ≠ .newline)
  | cons s rest ih =>
      by_cases hs : s.1 = .newline
      · rwa [pastBreaks_newline hs]
      · rwa [pastBreaks_cons hs]

theorem pastBreaks_eq (h : headKind A ≠ .newline) : pastBreaks A = A := by
  cases A with
  | nil => rfl
  | cons s rest => exact pastBreaks_cons h rest

theorem pastBreaks_behind {L : List Spelling} {m : String}
    (hZ : LineBreaks Z) (A : List Spelling) :
    pastBreaks ((Z ++ (.comma, m) :: L) ++ A) = ((.comma, m) :: L) ++ A := by
  rw [List.append_assoc, pastBreaks_append hZ, List.cons_append,
    pastBreaks_cons (by decide : TokenKind.comma ≠ .newline)]

theorem listBehind_comma {L : List Spelling} {m : String}
    (hZ : LineBreaks Z) (hL : ListArgument L) :
    ListBehind ((.comma, m) :: (Z ++ L)) :=
  .separated (fun _ hs => absurd hs List.not_mem_nil) hZ hL

/-- Nothing is added in front of a closing parenthesis. -/
theorem Padded.closed {B B' : List Spelling} (hs : s.1 = .rightParen)
    (rest : Padded called levels.tail B B') :
    Padded called levels (s :: B) (s :: B') := by
  have hline : s.1 ≠ .newline := by rw [hs]; decide
  have h : Padded called levels (s :: B) ([] ++ (s :: B')) :=
    .close hs (pastBreaks_cons hline _) (pastBreaks_cons hline _) (Or.inl rfl)
      rest
  exact h

/-- Padding is the same behind the ends of lines. -/
theorem Padded.behindBreaks (h : Padded called levels A A') :
    Padded called levels (pastBreaks A) (pastBreaks A') := by
  induction h with
  | nil => exact .nil
  | @token _ s _ _ hs rest ih =>
      by_cases hline : s.1 = .newline
      · rw [pastBreaks_newline hline, pastBreaks_newline hline]
        exact ih
      · rw [pastBreaks_cons hline, pastBreaks_cons hline]
        exact .token hs rest
  | index hs rest _ =>
      rw [pastBreaks_cons (by rw [hs]; decide),
        pastBreaks_cons (by rw [hs]; decide)]
      exact .index hs rest
  | unindex hs rest _ =>
      rw [pastBreaks_cons (by rw [hs]; decide),
        pastBreaks_cons (by rw [hs]; decide)]
      exact .unindex hs rest
  | group hs rest _ =>
      rw [pastBreaks_cons (by rw [hs]; decide),
        pastBreaks_cons (by rw [hs]; decide)]
      exact .group hs rest
  | @call _ name _ _ _ _ hname hs hcalled hZ rest _ =>
      have hline : name.1 ≠ .newline := hname.ne rfl
      rw [pastBreaks_cons hline, pastBreaks_cons hline]
      exact .call hname hs hcalled hZ rest
  | @close levels s _ _ B B' _ hs hA hA' hZ rest _ =>
      have hline : s.1 ≠ .newline := by rw [hs]; decide
      rw [hA]
      rcases hZ with rfl | ⟨hlevel, ⟨hZ, hZ', hL⟩⟩
      · rw [List.nil_append, hA']
        exact .closed hs rest
      · rw [pastBreaks_behind hZ]
        exact .close hs (pastBreaks_cons hline _) hA'
          (Or.inr ⟨hlevel, listBehind_comma hZ' hL⟩) rest
  | comma hs hs' hA hA' hZ rest _ =>
      rw [hA, hA']
      exact .comma hs hs' (pastBreaks_cons (by rw [hs]; decide) _)
        (pastBreaks_cons (by rw [hs']; decide) _) hZ rest

/-! ## First tokens -/

/-- What a rule sees of the first token is the same, if it takes a closing
parenthesis and a comma for the end of a line. -/
theorem Padded.seen {α : Type} (h : Padded called levels A A')
    (see : TokenKind → α) (hclose : see .rightParen = see .newline)
    (hcomma : see .comma = see .newline) :
    see (headKind A') = see (headKind A) := by
  have hfirst : ∀ {s : Spelling} {A B : List Spelling},
      s.1 = .rightParen ∨ s.1 = .comma → pastBreaks A = s :: B →
        see (headKind A) = see .newline := by
    intro s A B hs hA
    rcases headKind_of_pastBreaks hA with hkind | hkind <;> rw [hkind]
    rcases hs with hs | hs <;> rw [hs]
    · exact hclose
    · exact hcomma
  cases h with
  | nil | token | index | unindex | group | call => rfl
  | close hs hA hA' hZ rest =>
      rw [hfirst (Or.inl hs) hA]
      rcases hZ with rfl | ⟨_, hZ⟩
      · exact hfirst (Or.inl hs) hA'
      · cases hZ with
        | separated hZ hZ' hL =>
            exact hfirst (Or.inr rfl) (pastBreaks_behind hZ _)
  | comma hs hs' hA hA' hZ rest =>
      rw [hfirst (Or.inr hs) hA, hfirst (Or.inr hs') hA']

/-- The arguments end, or go on behind a comma, in both or in neither. -/
theorem Padded.ends (h : Padded called levels A A')
    (hA : headKind A ≠ .newline) (hA' : headKind A' ≠ .newline) :
    headKind A' = .rightParen ∨ headKind A' = .comma ↔
      headKind A = .rightParen ∨ headKind A = .comma := by
  have hseen := h.seen
    (fun kind => (kind = .rightParen ∨ kind = .comma) ∨ kind = .newline)
    (by simp) (by simp)
  simpa only [hA, hA', or_false, eq_iff_iff] using hseen

/-- Where no list is added the first tokens are of one class. -/
theorem Padded.headKind_eq (h : Padded called levels A A')
    (hlevel : levels.headD false = false) (hA : headKind A ≠ .newline)
    (hA' : headKind A' ≠ .newline) : headKind A' = headKind A := by
  cases h with
  | nil | token | index | unindex | group | call => rfl
  | close hs hB hB' hZ rest =>
      rcases hZ with rfl | ⟨hlist, _⟩
      · rw [List.nil_append] at hA' ⊢
        rw [pastBreaks_eq hA] at hB
        rw [pastBreaks_eq hA'] at hB'
        rw [hB, hB']
        rfl
      · cases hlevel.symm.trans hlist
  | comma hs hs' hB hB' hZ rest =>
      rw [pastBreaks_eq hA] at hB
      rw [pastBreaks_eq hA'] at hB'
      rw [hB, hB']
      exact hs'.trans hs.symm

theorem Padded.nil_eq (h : Padded called levels [] A') : A' = [] := by
  cases h with
  | nil => rfl
  | close _ hA | comma _ _ hA => cases hA

theorem Padded.eq_nil (h : Padded called levels A []) : A = [] := by
  generalize hA' : [] = A' at h
  cases h with
  | nil => rfl
  | token | index | unindex | group | call => cases hA'
  | close _ _ hB' =>
      rw [(List.append_eq_nil_iff.mp hA'.symm).2] at hB'
      cases hB'
  | comma _ _ _ hB' =>
      rw [← hA'] at hB'
      cases hB'

theorem Padded.behind (h : Padded called levels A A') :
    PaddedBehind called levels A A' := by
  by_cases hopen : headKind A = .leftParen
  · cases h with
    | nil => cases hopen
    | @token _ s _ _ hs _ =>
        have hopen : s.1 = .leftParen := hopen
        rw [hopen] at hs
        cases hs
    | index hs | unindex hs => cases hs.symm.trans hopen
    | group hs rest => exact .opening hs ⟨[], _, rfl, Or.inl rfl, rest⟩
    | call hname => exact absurd hopen (hname.ne rfl)
    | close hs hA | comma hs _ hA =>
        rcases headKind_of_pastBreaks hA with hkind | hkind
        · cases hopen.symm.trans (hkind.trans hs)
        · cases hopen.symm.trans hkind
  · exact .plain hopen h

theorem PaddedBehind.seen {α : Type} (h : PaddedBehind called levels A A')
    (see : TokenKind → α) (hclose : see .rightParen = see .newline)
    (hcomma : see .comma = see .newline) :
    see (headKind A') = see (headKind A) := by
  cases h with
  | plain _ rest => exact rest.seen see hclose hcomma
  | opening => rfl

theorem PaddedBehind.padded (h : PaddedBehind called levels A A')
    (hA : headKind A ≠ .leftParen) : Padded called levels A A' := by
  cases h with
  | plain _ rest => exact rest
  | opening hs => exact absurd hs hA

theorem PaddedFrom.of_plain (hmark : s.1.isMark = false)
    (h : PaddedBehind called levels A A')
    (h' : ¬ (Callee s ∧ called (s :: A)) → Padded called levels A A') :
    PaddedFrom called levels s A A' := by
  unfold PaddedFrom
  cases hkind : s.1 <;> rw [hkind] at hmark <;>
    first | exact ⟨h, h'⟩ | cases hmark

theorem PaddedFrom.plain (h : PaddedFrom called levels s A A')
    (hmark : s.1.isMark = false) : PaddedBehind called levels A A' ∧
      (¬ (Callee s ∧ called (s :: A)) → Padded called levels A A') := by
  unfold PaddedFrom at h
  cases hkind : s.1 <;> rw [hkind] at hmark h <;>
    first | exact h | cases hmark

theorem PaddedFrom.group (h : PaddedFrom called levels s A A')
    (hs : s.1 = .leftParen) :
    Padded called (false :: levels) (pastBreaks A) (pastBreaks A') := by
  unfold PaddedFrom at h
  rwa [hs] at h

theorem PaddedFrom.index (h : PaddedFrom called levels s A A')
    (hs : s.1 = .leftBracket) : Padded called (false :: levels) A A' := by
  unfold PaddedFrom at h
  rwa [hs] at h

theorem PaddedFrom.unindex (h : PaddedFrom called levels s A A')
    (hs : s.1 = .rightBracket) : Padded called levels.tail A A' := by
  unfold PaddedFrom at h
  rwa [hs] at h

/-- A token that is neither a closing parenthesis nor a comma stands first in
both, as nothing is added in front of it. -/
theorem Padded.cons (h : Padded called levels (s :: A) A')
    (hline : s.1 ≠ .newline) (hclose : s.1 ≠ .rightParen)
    (hcomma : s.1 ≠ .comma) :
    ∃ B', A' = s :: B' ∧ PaddedFrom called levels s A B' := by
  cases h with
  | token hmark rest => exact ⟨_, rfl, .of_plain hmark rest.behind fun _ => rest⟩
  | index hs rest | unindex hs rest | group hs rest =>
      refine ⟨_, rfl, ?_⟩
      unfold PaddedFrom
      rw [hs]
      exact rest
  | call hname hs hcalled hZ rest =>
      exact ⟨_, rfl, .of_plain hname.isMark (.opening hs
        ⟨_, _, rfl, hZ.imp_right fun hZ => ⟨rfl, hZ⟩, rest⟩)
        fun h => absurd ⟨hname, hcalled⟩ h⟩
  | close hs hA =>
      rw [pastBreaks_cons hline] at hA
      cases hA
      exact absurd hs hclose
  | comma hs _ hA =>
      rw [pastBreaks_cons hline] at hA
      cases hA
      exact absurd hs hcomma

/-- A list may have been put in front of a closing parenthesis. -/
theorem Padded.close_inv (h : Padded called levels (s :: A) A')
    (hs : s.1 = .rightParen) :
    ∃ Z B C, A' = Z ++ B ∧
      (Z = [] ∨ levels.headD false = true ∧ ListBehind Z) ∧
      pastBreaks B = s :: C ∧ Padded called levels.tail A C := by
  have hline : s.1 ≠ .newline := by rw [hs]; decide
  cases h with
  | token hs' | index hs' | unindex hs' | group hs' =>
      rw [hs] at hs'
      cases hs'
  | call hname => exact absurd hs (hname.ne rfl)
  | close hs' hA hA' hZ rest =>
      rw [pastBreaks_cons hline] at hA
      cases hA
      exact ⟨_, _, _, rfl, hZ, hA', rest⟩
  | comma hs' _ hA =>
      rw [pastBreaks_cons hline] at hA
      cases hA
      cases hs.symm.trans hs'

theorem Padded.comma_inv (h : Padded called levels (s :: A) A')
    (hs : s.1 = .comma) :
    ∃ s' B', s'.1 = .comma ∧ pastBreaks A' = s' :: B' ∧
      PaddedSlot called levels A B' := by
  have hline : s.1 ≠ .newline := by rw [hs]; decide
  cases h with
  | token hs' | index hs' | unindex hs' | group hs' =>
      rw [hs] at hs'
      cases hs'
  | call hname => exact absurd hs (hname.ne rfl)
  | close hs' hA =>
      rw [pastBreaks_cons hline] at hA
      cases hA
      cases hs.symm.trans hs'
  | comma _ hs' hA hA' hZ rest =>
      rw [pastBreaks_cons hline] at hA
      cases hA
      exact ⟨_, _, hs', hA', _, _, rfl, hZ, rest⟩

theorem isMark_cases {kind : TokenKind} (h : ¬ kind.isMark = false) :
    kind = .leftParen ∨ kind = .leftBracket ∨ kind = .rightParen ∨
      kind = .rightBracket ∨ kind = .comma := by
  cases kind <;> simp_all [TokenKind.isMark]

/-- Behind a bracket or a comma, where no lists are added. -/
theorem Padded.passed {t : Spelling}
    (h : Padded called levels (s :: A) (t :: A'))
    (hlevels : ∀ b ∈ levels, b = false) (hmark : ¬ s.1.isMark = false)
    (hline : t.1 ≠ .newline) :
    ∃ levels', (∀ b ∈ levels', b = false) ∧
      Padded called levels' (pastBreaks A) (pastBreaks A') := by
  have hlevel : ¬ levels.headD false = true := by
    cases levels with
    | nil => exact nofun
    | cons b _ => rw [hlevels b (List.mem_cons_self ..)]; exact nofun
  have htail : ∀ b ∈ levels.tail, b = false :=
    fun b hb => hlevels b (List.mem_of_mem_tail hb)
  have hfalse : ∀ b ∈ false :: levels, b = false :=
    List.forall_mem_cons.mpr ⟨rfl, hlevels⟩
  have hfrom : s.1 ≠ .rightParen → s.1 ≠ .comma →
      PaddedFrom called levels s A A' := by
    intro hclose hcomma
    have hline : s.1 ≠ .newline := by
      intro hline
      rw [hline] at hmark
      exact hmark rfl
    obtain ⟨_, hA', hrest⟩ := h.cons hline hclose hcomma
    rwa [(List.cons.inj hA').2]
  rcases isMark_cases hmark with hs | hs | hs | hs | hs
  · have hrest := hfrom (by rw [hs]; decide) (by rw [hs]; decide)
    exact ⟨_, hfalse, hrest.group hs⟩
  · have hrest := hfrom (by rw [hs]; decide) (by rw [hs]; decide)
    exact ⟨_, hfalse, (hrest.index hs).behindBreaks⟩
  · obtain ⟨Z, B, C, hsplit, hZ, hB, hrest⟩ := h.close_inv hs
    rcases hZ with rfl | hlist
    · rw [List.nil_append] at hsplit
      rw [← hsplit, pastBreaks_cons hline] at hB
      rw [(List.cons.inj hB).2]
      exact ⟨_, htail, hrest.behindBreaks⟩
    · exact absurd hlist.1 hlevel
  · have hrest := hfrom (by rw [hs]; decide) (by rw [hs]; decide)
    exact ⟨_, htail, (hrest.unindex hs).behindBreaks⟩
  · obtain ⟨t', B', _, hB', Z, C, rfl, hZ, hrest⟩ := h.comma_inv hs
    rcases hZ with rfl | hlist
    · rw [pastBreaks_cons hline] at hB'
      rw [(List.cons.inj hB').2]
      exact ⟨_, hlevels, hrest⟩
    · exact absurd hlist.1 hlevel

end

/-! ## The same tokens in front -/

/-- The brackets that are open behind `X`, which adds no list. -/
def nesting : List Bool → List Spelling → List Bool
  | levels, [] => levels
  | levels, s :: X =>
    nesting
      (if s.1.isOpening then false :: levels
        else if s.1.isClosing then levels.tail else levels) X

theorem nesting_append (levels : List Bool) (X Y : List Spelling) :
    nesting levels (X ++ Y) = nesting (nesting levels X) Y := by
  induction X generalizing levels with
  | nil => rfl
  | cons s X ih => exact ih _

theorem nesting_token {s : Spelling} (h : s.1.isOpening = false)
    (h' : s.1.isClosing = false) (levels : List Bool) (X : List Spelling) :
    nesting levels (s :: X) = nesting levels X := by
  rw [nesting, h, h']
  rfl

/-- Balanced brackets leave open what was open. -/
theorem nesting_balanced {B : List Spelling} (h : Balanced B)
    (levels : List Bool) : nesting levels B = levels := by
  induction h generalizing levels with
  | nil => rfl
  | token h h' _ ih => rw [nesting_token h h', ih]
  | @enclosed s t B C h _ h' _ ihB ihC =>
      have hopen : t.1.isOpening = false := by
        cases hkind : t.1 <;> rw [hkind] at h' <;> first | rfl | cases h'
      rw [nesting, nesting_append, h, if_pos rfl, ihB, nesting, hopen, h',
        if_neg (by decide), if_pos rfl, List.tail_cons, ihC]

theorem nesting_breaks {Z : List Spelling} (h : LineBreaks Z)
    (levels : List Bool) : nesting levels Z = levels := by
  induction Z with
  | nil => rfl
  | cons s Z ih =>
      have hs := h s (List.mem_cons_self ..)
      rw [nesting_token (by rw [hs]; rfl) (by rw [hs]; rfl)]
      exact ih fun t ht => h t (List.mem_cons_of_mem _ ht)

theorem isMark_eq (kind : TokenKind) : kind.isMark =
    (kind.isOpening || kind.isClosing || kind == .comma) := by
  cases kind <;> rfl

section

variable {called : List Spelling → Prop} {levels : List Bool} {s : Spelling}
  {A A' : List Spelling}

/-- What stands in front of padding is the same in both. -/
theorem Padded.append (X : List Spelling)
    (h : Padded called (nesting levels X) A A') :
    Padded called levels (X ++ A) (X ++ A') := by
  induction X generalizing levels with
  | nil => exact h
  | cons s X ih =>
      rw [List.cons_append, List.cons_append]
      by_cases hmark : s.1.isMark = false
      · have hplain : s.1.isOpening = false ∧ s.1.isClosing = false := by
          rw [isMark_eq] at hmark
          simp_all
        rw [nesting_token hplain.1 hplain.2] at h
        exact .token hmark (ih h)
      rw [nesting] at h
      rcases isMark_cases hmark with hs | hs | hs | hs | hs <;> rw [hs] at h
      · exact .group hs (ih h).behindBreaks
      · exact .index hs (ih h)
      · exact .closed hs (ih h)
      · exact .unindex hs (ih h)
      · have hline : s.1 ≠ .newline := by rw [hs]; decide
        have hbehind : pastBreaks (s :: (X ++ A')) = s :: ([] ++ (X ++ A')) :=
          pastBreaks_cons hline _
        exact .comma hs hs (pastBreaks_cons hline _) hbehind (Or.inl rfl)
          (ih h).behindBreaks

theorem Padded.refl (A : List Spelling) : Padded called levels A A := by
  have h : Padded called levels (A ++ []) (A ++ []) := .append A .nil
  rwa [List.append_nil] at h

end

end Barscript.Script

import Barscript.Proofs.Decimal.ReadBack
import Barscript.Proofs.Script.Partition
import Barscript.Proofs.Script.Places

/-!
# What a fault is about

A script that cannot be read is at fault at one of its tokens, and the error
says what was found there (`errors_at_tokens`). No fault is about a number: a
token that looks like a number is one, for the lexer takes digits with at most
one point among them and never a point alone (`read?_of_isNumber`).
-/

namespace Barscript.Script

open Barscript.Decimal

/-! ## Numbers -/

/-- **What looks like a number is read as one.** -/
theorem read?_of_isNumber {text : List Char} (h : IsNumber text) :
    ∃ x, read? text = some x := by
  have hread : ∃ x, readUnsigned? text = some x := by
    rcases h.parts with ⟨hne, hdigits⟩ | ⟨whole, fraction, rfl, hne, hwhole, hfraction⟩
    · exact ⟨_, readUnsigned?_whole hne hdigits⟩
    · exact ⟨_, readUnsigned?_pointed hne hwhole hfraction⟩
  have hsign : splitSign text = (false, text) := by
    unfold splitSign
    split
    · exact absurd (h.chars '-' (List.mem_cons_self ..)) (by decide)
    · exact absurd (h.chars '+' (List.mem_cons_self ..)) (by decide)
    · rfl
  obtain ⟨x, hx⟩ := hread
  unfold read?
  rw [hsign]
  dsimp only
  rw [hx]
  cases readWord? text <;> exact ⟨_, rfl⟩

theorem Spells.isNumber {text behind : List Char} {s : Spelling}
    (h : Spells text s behind) (hkind : s.1 = .number) :
    IsNumber s.2.toList := by
  cases h with
  | number hnumber => rwa [String.toList_ofList]
  | word => exact absurd hkind (ofWord_ne_number _)
  | symbol hsymbol =>
      cases hsymbol with
      | one hone =>
          unfold oneCharKind? at hone
          split at hone <;> cases hone <;> cases hkind
      | two htwo =>
          unfold twoCharKind? at htwo
          split at htwo <;> cases htwo <;> cases hkind
  | newline | string | openString | version => cases hkind

theorem Partition.isNumber {v : Bool} {source : List Char}
    {spelled : List Spelling} (h : Partition v source spelled) :
    ∀ s ∈ spelled, s.1 = .number → IsNumber s.2.toList := by
  induction h with
  | done => exact fun s hs => absurd hs List.not_mem_nil
  | token hspells _ ih => exact List.forall_mem_cons.mpr ⟨hspells.isNumber, ih⟩
  | skipped _ _ ih => exact ih

/-- Every token of the class of numbers can be read as a number. -/
theorem readText?_of_leads {source : String} {d : Cursor}
    (h : (Cursor.ofSource source).Leads d) (hkind : d.peek.kind = .number) :
    ∃ x, readText? d.peek.value = some x := by
  have hmem : d.peek ∈ (Cursor.ofSource source).pending := by
    refine h.suffix.subset ?_
    unfold Cursor.peek at hkind ⊢
    cases hpending : d.pending with
    | nil =>
        rw [hpending] at hkind
        cases hkind
    | cons token rest => exact List.mem_cons_self ..
  have hspelled : d.peek.spelling ∈ spellings source.toList := by
    rw [← ahead_ofSource source]
    exact List.mem_map_of_mem hmem
  exact read?_of_isNumber
    ((partition_spellings source.toList).isNumber _ hspelled hkind)

/-! ## Errors -/

theorem Later.complaint_ne {source : String} {c : Cursor} {fault : Fault}
    (h : Later c fault) (hc : (Cursor.ofSource source).Leads c) :
    fault.complaint ≠ .badNumber := by
  intro hbad
  obtain ⟨hkind, hnone⟩ := h.number hbad
  obtain ⟨d, hd, htoken⟩ := h.token
  rw [htoken] at hkind hnone
  obtain ⟨x, hx⟩ := readText?_of_leads (hc.trans hd) hkind
  rw [hx] at hnone
  cases hnone

/-- How an error names the token that was found. -/
inductive Token.FoundAs (token : Token) : String → Prop where
  | newline (h : token.kind = .newline) : token.FoundAs "newline"
  | finish (h : token.kind = .endOfInput) : token.FoundAs "end of input"
  | value (h : token.kind ≠ .newline) (h' : token.kind ≠ .endOfInput) :
      token.FoundAs ("'" ++ token.value ++ "'")

/-- What an error says was expected, or that nothing would do. -/
inductive Demand : String → Prop where
  | expected (what : String) : Demand ("expected " ++ what)
  | unexpected : Demand "unexpected token in expression"

/-- The error is at the token and says that it was found there. -/
structure SyntaxError.IsAt (e : SyntaxError) (token : Token) : Prop where
  place : e.place = token.place
  reason : ∃ demand found, Demand demand ∧ token.FoundAs found ∧
    e.reason = demand ++ ", found " ++ found

theorem foundAs_quoted (token : Token) : token.FoundAs token.quoted := by
  unfold Token.quoted
  by_cases hnewline : token.kind = .newline
  · rw [if_pos (Or.inr hnewline), hnewline]
    exact .newline hnewline
  by_cases hfinish : token.kind = .endOfInput
  · rw [if_pos (Or.inl hfinish), hfinish]
    exact .finish hfinish
  · rw [if_neg (not_or.mpr ⟨hfinish, hnewline⟩)]
    exact .value hnewline hfinish

theorem isAt_toError {fault : Fault} (h : fault.complaint ≠ .badNumber) :
    fault.toError.IsAt fault.token := by
  refine ⟨rfl, ?_⟩
  have hfound := foundAs_quoted fault.token
  show ∃ demand found, _ ∧ _ ∧ fault.message = _
  unfold Fault.message
  cases hcomplaint : fault.complaint with
  | expected what => exact ⟨_, _, .expected what, hfound, rfl⟩
  | unexpected => exact ⟨_, _, .unexpected, hfound, rfl⟩
  | badNumber => exact absurd hcomplaint h

/-- **Every error is at a token of the script** and names it; and wherever in
the script an operand is read, it is no number that is at fault. -/
theorem errors_at_tokens (source : String) :
    (∀ c fault, (Cursor.ofSource source).Leads c →
      primary c = .failed fault → fault.complaint ≠ .badNumber) ∧
    ∀ e, Strategy.parse source = .error e →
      ∃ token ∈ tokens source, e.IsAt token := by
  constructor
  · intro c fault hleads hfault
    have hlater := phrase_primary c
    rw [hfault] at hlater
    exact Later.complaint_ne hlater hleads
  · intro e he
    unfold Strategy.parse at he
    cases hfault : statementsOf source with
    | ok all =>
        rw [hfault] at he
        cases he
    | error fault =>
        rw [hfault] at he
        cases he
        obtain ⟨earlier, later, htokens⟩ := mem_tokens_of_fault hfault
        refine ⟨fault.token, ?_, isAt_toError ?_⟩
        · rw [htokens]
          exact List.mem_append_right _ (List.mem_cons_self ..)
        · exact (later_statements _ hfault).complaint_ne (.refl _)

/-- In the second line a list is left open, and so the call around it. -/
def unclosedScript : String :=
  "len = .5\nfast = ta.ema(close, [len, 1.)\n"

/-- The fault is found at the bracket, no number stands there, and the error
is at the bracket in the end, for the list cannot be passed over. -/
theorem errors_at_tokens_unclosedScript :
    (∃ c fault, (Cursor.ofSource unclosedScript).Leads c ∧
      primary c = .failed fault ∧ fault.complaint ≠ .badNumber) ∧
    ∃ e, Strategy.parse unclosedScript = .error e ∧ e.place = ⟨2, 22⟩ ∧
      ∃ token ∈ tokens unclosedScript, e.IsAt token := by
  have hall := errors_at_tokens unclosedScript
  constructor
  · -- The eleventh token is the bracket.
    obtain ⟨c, hleads, hkind⟩ : ∃ c, (Cursor.ofSource unclosedScript).Leads c ∧
        firstKind c.pending = .leftBracket :=
      ⟨_, leads_leaving (List.drop_suffix 10 _), by decide +kernel⟩
    obtain ⟨token, hbracket, hpending⟩ :=
      pending_of_firstKind hkind (by decide)
    have hname : token.isName = false := by
      unfold Token.isName
      rw [hbracket]
    have hfault : primary c = .failed (c.fault .unexpected) := by
      rw [primary_cons hpending]
      simp [hbracket, hname]
    exact ⟨c, _, hleads, hfault, hall.1 c _ hleads hfault⟩
  · have hplace : ((Strategy.parse unclosedScript).map fun _ => ()).mapError
        SyntaxError.place = .error ⟨2, 22⟩ := by
      decide +kernel
    cases he : Strategy.parse unclosedScript with
    | ok s =>
        rw [he] at hplace
        cases hplace
    | error e =>
        rw [he] at hplace
        exact ⟨e, rfl, Except.error.inj hplace, hall.2 e he⟩

end Barscript.Script

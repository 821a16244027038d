import Mathlib.Data.List.Forall2
import Barscript.Session.Backtest
import Barscript.Proofs.Session.Together
import Barscript.Proofs.Session.View

/-!
# Rule by rule

Two strategies whose rules correspond one by one decide alike when the
expressions of corresponding rules are evaluated alike (`RulesAlike.decide`),
and trade alike when the guards of corresponding rules are answered alike
(`together_overBy`). How a guard is answered, and what is remembered for it, is
left open: `Progress.overBy` takes it as an argument.
-/

namespace Barscript.Session

open Barscript.Script Barscript.Series Barscript.Market Barscript.Trading

variable {σ τ : Type}

/-- The first item that passes, where the items of two lists correspond and the
tests agree on those with one number. -/
theorem Together.firstMatching {R : σ → τ → Prop} {α β : Type}
    {Q : α → β → Prop} {test : Nat → α → StateM σ Bool}
    {test' : Nat → β → StateM τ Bool} {xs : List α} {ys : List β}
    (hmatch : List.Forall₂ Q xs ys) (index : Nat)
    (h : ∀ k x y, xs[k]? = some x → ys[k]? = some y → Q x y →
      Together R Eq (test (index + k) x) (test' (index + k) y)) :
    Together R (Option.Rel Q) (Session.firstPassing test index xs)
      (Session.firstPassing test' index ys) := by
  induction hmatch generalizing index with
  | nil => exact .pure .none
  | @cons x y xs ys hxy _ ih =>
      refine (h 0 x y rfl rfl hxy).bind ?_
      rintro passed _ rfl
      cases passed with
      | true => exact .pure (.some hxy)
      | false =>
          refine ih (index + 1) ?_
          intro k a b ha hb hab
          have hnext := h (k + 1) a b ha hb hab
          rw [show index + (k + 1) = index + 1 + k by omega] at hnext
          exact hnext

/-! ## Rules -/

/-- The guards of the rules. -/
def World.IsGuard (w : World) (g : Expr) : Prop :=
  (∃ entry ∈ w.strategy.entries, entry.guard = some g) ∨
    ∃ exit ∈ w.strategy.exits, exit.guard = some g

/-- The guard of a key. -/
def World.guardOf? (w : World) : GuardKey → Option Expr
  | .entry k => w.strategy.entries[k]?.bind Entry.guard
  | .exit k => w.strategy.exits[k]?.bind Exit.guard

theorem guardOf?_entry {w : World} {k : Nat} {entry : Entry}
    (h : w.strategy.entries[k]? = some entry) :
    w.guardOf? (.entry k) = entry.guard :=
  congrArg (fun found => found.bind Entry.guard) h

theorem guardOf?_exit {w : World} {k : Nat} {exit : Exit}
    (h : w.strategy.exits[k]? = some exit) :
    w.guardOf? (.exit k) = exit.guard :=
  congrArg (fun found => found.bind Exit.guard) h

theorem isGuard_of_guardOf? {w : World} {key : GuardKey} {g : Expr}
    (h : w.guardOf? key = some g) : w.IsGuard g := by
  cases key with
  | entry k =>
      obtain ⟨entry, hentry, hg⟩ := Option.bind_eq_some_iff.mp h
      exact Or.inl ⟨entry, List.mem_of_getElem? hentry, hg⟩
  | exit k =>
      obtain ⟨exit, hexit, hg⟩ := Option.bind_eq_some_iff.mp h
      exact Or.inr ⟨exit, List.mem_of_getElem? hexit, hg⟩

/-- Two rules for entering in one direction whose expressions correspond. -/
structure EntryMatches (E : Expr → Expr → Prop) (a b : Entry) : Prop where
  direction : b.direction = a.direction
  guard : Option.Rel E a.guard b.guard
  quantity : Option.Rel E a.quantity b.quantity
  stop : Option.Rel E a.stop b.stop
  target : Option.Rel E a.target b.target

/-- Two rules for leaving whose guards correspond. -/
def ExitMatches (E : Expr → Expr → Prop) (a b : Exit) : Prop :=
  Option.Rel E a.guard b.guard

/-- Two worlds over the same bars whose rules correspond. Corresponding
expressions are evaluated alike, and indicator calls at least with related
caches. -/
structure RulesAlike (w w' : World) (R : Cache → Cache → Prop)
    (E : Expr → Expr → Prop) : Prop where
  symbol : w'.symbol = w.symbol
  bars : w'.bars = w.bars
  position : w'.position = w.position
  entries : List.Forall₂ (EntryMatches E) w.strategy.entries
    w'.strategy.entries
  exits : List.Forall₂ (ExitMatches E) w.strategy.exits w'.strategy.exits
  values : ∀ {e e' : Expr}, E e e' → Together R Eq (w.value e) (w'.value e')
  calls : List.Forall₂
    (fun e e' => Together R (fun _ _ => True) (w.value e) (w'.value e'))
    w.strategy.indicators w'.strategy.indicators

section

variable {w w' : World} {R : Cache → Cache → Prop} {E : Expr → Expr → Prop}

theorem RulesAlike.guardHolds (h : RulesAlike w w' R E)
    {guard guard' : Option Expr} (hguard : Option.Rel E guard guard') :
    Together R Eq (w.guardHolds guard) (w'.guardHolds guard') := by
  cases hguard with
  | none => exact .pure rfl
  | some he =>
      refine (h.values he).bind ?_
      rintro v _ rfl
      exact .pure rfl

theorem RulesAlike.finiteNumber (h : RulesAlike w w' R E)
    {e e' : Option Expr} (he : Option.Rel E e e') :
    Together R Eq (w.finiteNumber e) (w'.finiteNumber e') := by
  cases he with
  | none => exact .pure rfl
  | some he =>
      refine (h.values he).bind ?_
      rintro v _ rfl
      exact .pure rfl

theorem RulesAlike.entryOrder? (h : RulesAlike w w' R E) :
    Together R Eq w.entryOrder? w'.entryOrder? := by
  unfold World.entryOrder?
  refine (Together.firstMatching h.entries 0 ?_).bind ?_
  · intro k entry entry' _ _ hmatch
    rw [h.position, hmatch.direction]
    show Together R Eq (if _ then _ else _) (if _ then _ else _)
    split
    · exact .pure rfl
    · exact h.guardHolds hmatch.guard
  · intro found found' hfound
    cases hfound with
    | none => exact .pure rfl
    | some hmatch =>
        refine (h.finiteNumber hmatch.quantity).bind ?_
        rintro quantity _ rfl
        refine (h.finiteNumber hmatch.stop).bind ?_
        rintro stop _ rfl
        refine (h.finiteNumber hmatch.target).bind ?_
        rintro target _ rfl
        rw [hmatch.direction]
        exact .pure rfl

theorem RulesAlike.leaves (h : RulesAlike w w' R E) :
    Together R Eq w.leaves w'.leaves := by
  unfold World.leaves
  refine (Together.firstMatching h.exits 0
    fun _ _ _ _ _ hmatch => h.guardHolds hmatch).bind ?_
  intro found found' hfound
  cases hfound with
  | none => exact .pure rfl
  | some _ => exact .pure rfl

theorem RulesAlike.computeIndicators (h : RulesAlike w w' R E) :
    Together R Eq w.computeIndicators w'.computeIndicators := by
  unfold World.computeIndicators
  have hcalls := h.calls
  revert hcalls
  generalize w.strategy.indicators = calls
  generalize w'.strategy.indicators = calls'
  intro hcalls
  induction hcalls with
  | nil => exact .pure rfl
  | cons hcall _ ih =>
      refine Together.bind (V := Eq) ?_ fun _ _ _ => ih
      exact hcall.bind fun _ _ _ => .pure rfl

/-- **Where the rules are alike the decisions are.** -/
theorem RulesAlike.decide (h : RulesAlike w w' R E) (quantity : Float) :
    Together R Eq (w.decide quantity) (w'.decide quantity) := by
  have hclose : w'.lastClose = w.lastClose := by
    unfold World.lastClose
    rw [h.bars]
  unfold World.decide
  rw [h.symbol, h.position, hclose]
  refine (h.computeIndicators).bind fun _ _ _ => ?_
  refine (h.entryOrder?).bind ?_
  rintro order _ rfl
  cases order with
  | some order => exact .pure rfl
  | none =>
      cases w.position.direction? with
      | none => exact .pure rfl
      | some direction =>
          refine (h.leaves).bind ?_
          rintro leaving _ rfl
          cases leaving with
          | true => exact .pure rfl
          | false => exact .pure rfl

end

/-! ## Trading by any answers to the guards -/

/-- Answers whether the guard of a rule holds at a bar while a position is
held. -/
abbrev Answering (σ : Type) :=
  Position → GuardKey → Option Expr → Nat → StateM σ Bool

/-- What happens at one bar when guards are answered in some way. -/
def Progress.tradeBy (s : Strategy) (holds : Answering σ) (p : Progress)
    (bar : Bar) (index : Nat) : StateM σ Progress :=
  match p.position.direction? with
  | none => do
    let entry ← firstPassing (fun k (entry : Entry) =>
      holds p.position (.entry k) entry.guard index) 0 s.entries
    pure (match entry with
      | some entry => p.enter entry.direction bar index
      | none => p)
  | some direction => do
    let exit ← firstPassing (fun k (exit : Exit) =>
      holds p.position (.exit k) exit.guard index) 0 s.exits
    pure (match exit with
      | some _ => p.leave direction bar index
      | none => p)

/-- The progress over some bars when guards are answered in some way. -/
def Progress.overBy (s : Strategy) (holds : Answering σ) (p : Progress)
    (index : Nat) : List Bar → StateM σ Progress
  | [] => pure p
  | bar :: rest => do
    let next ← p.tradeBy s holds bar index
    next.note.overBy s holds (index + 1) rest

/-- The answers of a backtest. -/
def World.remembered (w : World) : Answering Memory :=
  fun p => (w.holding p).guardHoldsAt

theorem trade_eq_tradeBy (w : World) (p : Progress) (bar : Bar) (index : Nat) :
    p.trade w bar index = p.tradeBy w.strategy w.remembered bar index := by
  unfold Progress.trade Progress.tradeBy
  cases p.position.direction? <;> rfl

theorem over_eq_overBy (w : World) (p : Progress) (index : Nat)
    (bars : List Bar) :
    p.over w index bars = p.overBy w.strategy w.remembered index bars := by
  induction bars generalizing p index with
  | nil => rfl
  | cons bar rest ih =>
      rw [Progress.over, Progress.overBy, trade_eq_tradeBy]
      congr 1
      funext next
      exact ih next.note (index + 1)

section

variable {R : σ → τ → Prop} {w w' : World} {holds : Answering σ}
  {holds' : Answering τ} {E : Expr → Expr → Prop}

/-- Guards with the same key are answered alike before a bar. -/
def AnsweredAlike (R : σ → τ → Prop) (w w' : World) (holds : Answering σ)
    (holds' : Answering τ) (limit : Nat) : Prop :=
  ∀ p key index, index < limit →
    Together R Eq (holds p key (w.guardOf? key) index)
      (holds' p key (w'.guardOf? key) index)

/-- Two strategies with rules in the same directions. -/
structure SameDirections (s s' : Strategy) : Prop where
  entries : List.Forall₂ (fun a b => a.direction = b.direction) s.entries
    s'.entries
  exits : List.Forall₂ (fun _ _ => True) s.exits s'.exits

theorem SameDirections.refl (s : Strategy) : SameDirections s s where
  entries := List.forall₂_same.mpr fun _ _ => rfl
  exits := List.forall₂_same.mpr fun _ _ => trivial

theorem together_tradeBy (hs : SameDirections w.strategy w'.strategy)
    {limit : Nat} (h : AnsweredAlike R w w' holds holds' limit) (q : Progress)
    (bar : Bar) {index : Nat} (hindex : index < limit) :
    Together R Eq (q.tradeBy w.strategy holds bar index)
      (q.tradeBy w'.strategy holds' bar index) := by
  unfold Progress.tradeBy
  cases q.position.direction? with
  | none =>
      refine (Together.firstMatching hs.entries 0 ?_).bind ?_
      · intro k entry entry' hk hk' _
        have hanswer := h q.position (.entry k) index hindex
        rw [guardOf?_entry hk, guardOf?_entry hk'] at hanswer
        rw [Nat.zero_add]
        exact hanswer
      · intro found found' hfound
        cases hfound with
        | none => exact .pure rfl
        | some hdirection =>
            dsimp only
            rw [hdirection]
            exact .pure rfl
  | some direction =>
      refine (Together.firstMatching hs.exits 0 ?_).bind ?_
      · intro k exit exit' hk hk' _
        have hanswer := h q.position (.exit k) index hindex
        rw [guardOf?_exit hk, guardOf?_exit hk'] at hanswer
        rw [Nat.zero_add]
        exact hanswer
      · intro found found' hfound
        cases hfound with
        | none => exact .pure rfl
        | some _ => exact .pure rfl

/-- **Where the guards are answered alike the progress is the same.** -/
theorem together_overBy (hs : SameDirections w.strategy w'.strategy)
    {limit : Nat} (h : AnsweredAlike R w w' holds holds' limit) (q : Progress)
    (index : Nat) (bars : List Bar) (hindex : index + bars.length ≤ limit) :
    Together R Eq (q.overBy w.strategy holds index bars)
      (q.overBy w'.strategy holds' index bars) := by
  induction bars generalizing q index with
  | nil => exact .pure rfl
  | cons bar rest ih =>
      rw [List.length_cons] at hindex
      refine (together_tradeBy hs h q bar (by omega)).bind ?_
      rintro next _ rfl
      exact ih next.note (index + 1) (by omega)

/-- Over all bars but the first, as in a backtest. -/
theorem together_backtestBy (hs : SameDirections w.strategy w'.strategy)
    (hbars : w'.bars = w.bars)
    (h : AnsweredAlike R w w' holds holds' w.bars.length) (q : Progress) :
    Together R Eq (q.overBy w.strategy holds 1 w.bars.tail)
      (q.overBy w'.strategy holds' 1 w'.bars.tail) := by
  rw [hbars]
  by_cases hempty : w.bars = []
  · rw [hempty]
    exact .pure rfl
  · have hpositive := List.length_pos_iff.mpr hempty
    refine together_overBy hs h q 1 w.bars.tail ?_
    rw [List.length_tail]
    omega

end

/-! ## Sessions -/

/-- The world over some bars, with a position. -/
def World.showing (w : World) (bars : List Bar) (p : Position) : World :=
  { w with bars := bars, position := p }

/-- What a session decides when a bar arrives. -/
def decision (s : Session) (bar : Bar) : (Signal × Position × Float) × Cache :=
  (s.toWorld.showing (s.bars ++ [bar]) s.position).decide s.entryQuantity []

theorem processBar_eq (s : Session) (bar : Bar) :
    s.processBar bar =
      ((s.decision bar).1.1,
        { s with bars := s.bars ++ [bar], position := (s.decision bar).1.2.1
                 entryQuantity := (s.decision bar).1.2.2
                 cache := (s.decision bar).2 }) :=
  rfl

theorem signals_cons (s : Session) (index : Nat) (bar : Bar)
    (rest : List Bar) :
    s.signals index (bar :: rest) =
      if (s.processBar bar).1.isIdle then
        (s.processBar bar).2.signals (index + 1) rest
      else (index, (s.processBar bar).1) ::
        (s.processBar bar).2.signals (index + 1) rest :=
  rfl

/-- **Sessions that decide alike over any bars and in any position answer bars
with the same signals.** -/
theorem signals_of_decide {s t : Session}
    (h : ∀ bars p quantity,
      ((s.toWorld.showing bars p).decide quantity []).1 =
        ((t.toWorld.showing bars p).decide quantity []).1)
    (hbars : t.bars = s.bars) (hposition : t.position = s.position)
    (hquantity : t.entryQuantity = s.entryQuantity) (index : Nat)
    (bars : List Bar) : s.signals index bars = t.signals index bars := by
  induction bars generalizing s t index with
  | nil => rfl
  | cons bar rest ih =>
      have hdecision : (s.decision bar).1 = (t.decision bar).1 := by
        unfold decision
        rw [hbars, hposition, hquantity]
        exact h (s.bars ++ [bar]) s.position s.entryQuantity
      have hsignal : (s.processBar bar).1 = (t.processBar bar).1 := by
        rw [processBar_eq, processBar_eq, hdecision]
      have hrest : ∀ index, (s.processBar bar).2.signals index rest =
          (t.processBar bar).2.signals index rest := by
        intro index
        refine ih (s := (s.processBar bar).2) (t := (t.processBar bar).2) h
          ?_ ?_ ?_ index
        · exact congrArg (· ++ [bar]) hbars
        · exact congrArg (fun r => r.2.1) hdecision.symm
        · exact congrArg (fun r => r.2.2) hdecision.symm
      rw [signals_cons, signals_cons, hsignal, hrest]

end Barscript.Session

import Barscript.Proofs.Session.Steady

/-!
# The moves of a script

What a steady script does at a bar depends only on the bars up to it and on
what is held: `World.move`. The events of a run are the moves at its bars one
after another, and a backtest makes the trades that are these events
(`trades_over`), however it came by the values of the guards.
-/

namespace Barscript.Session

open Barscript.Script Barscript.Series Barscript.Builtin Barscript.Market
open Barscript.Trading

/-! ## Guards -/

/-- Whether a guard holds at a bar when that bar is the newest one and nothing
was evaluated before. -/
def World.guardTruth (w : World) (p : Position) (i : Nat) :
    Option Expr → Bool
  | none => true
  | some g => (((w.upTo (i + 1)).holding p).fresh (i + 1) g).isTruthy

section

variable {w : World} {g : Expr}

/-- A guard has the beginning of its value over all bars when fewer bars
arrived. -/
theorem begins_fresh (ho : w.PlainOverrides) (h : SteadyScript w)
    (hr : Regular w w.InScript) (hg : w.IsGuard g) {n k l : Nat}
    (hv : Views n w.bars.length k l)
    (hview : k = l ∨ dependsOnView w.strategy g = false) (p : Position) :
    Value.Begins k l (((w.upTo n).holding p).fresh k g)
      ((w.holding p).fresh l g) := by
  have hmem : w.InScript g := ⟨g, Or.inl hg, .refl⟩
  have hroot : w.scriptScope.contains w.definitions g := .root (Or.inl hg)
  exact (together_evaluate ho p hv g
    ⟨hroot, hview.imp id (h.allViewFree hmem), Or.inr (h.causal hr hmem)⟩
    [] [] ⟨fun _ => .none, .first⟩).1

theorem isTruthy_fresh (ho : w.PlainOverrides) (h : SteadyScript w)
    (hr : Regular w w.InScript) (hg : w.IsGuard g) {i : Nat}
    (hi : i < w.bars.length) (p : Position) :
    ((w.holding p).fresh (i + 1) g).isTruthy = w.guardTruth p i (some g) := by
  have hv : Views (i + 1) w.bars.length (i + 1) (i + 1) :=
    ⟨hi, Nat.le_refl _, hi, Nat.le_refl _⟩
  exact congrArg Value.isTruthy
    (begins_fresh ho h hr hg hv (Or.inl rfl) p).eq.symm

theorem truthyAt_fresh (ho : w.PlainOverrides) (h : SteadyScript w)
    (hr : Regular w w.InScript) (hg : w.IsGuard g)
    (hview : dependsOnView w.strategy g = false) {i : Nat}
    (hi : i < w.bars.length) (p : Position) :
    ((w.holding p).fresh w.bars.length g).truthyAt i =
      w.guardTruth p i (some g) :=
  (begins_fresh ho h hr hg (.all hi) (Or.inr hview) p).isTruthy_eq.symm

end

/-! ## Moves -/

/-- What a script does at a bar. -/
inductive Move where
  | stay
  | enter (direction : Direction)
  | leave (direction : Direction)

/-- The move at a bar: the first rule for entering that applies when nothing
is held, or else any rule for leaving. -/
def World.move (w : World) (p : Position) (i : Nat) : Move :=
  match p.direction? with
  | none =>
    match w.strategy.entries.find? fun e => w.guardTruth p i e.guard with
    | some entry => .enter entry.direction
    | none => .stay
  | some direction =>
    match w.strategy.exits.find? fun e => w.guardTruth p i e.guard with
    | some _ => .leave direction
    | none => .stay

section

variable {w : World} {p : Position} {i : Nat}

theorem move_idle (hp : p.direction? = none)
    (h : (w.strategy.entries.find? fun e => w.guardTruth p i e.guard) =
      none) : w.move p i = .stay := by
  rw [World.move, hp, h]

theorem move_enter (hp : p.direction? = none) {entry : Entry}
    (h : (w.strategy.entries.find? fun e => w.guardTruth p i e.guard) =
      some entry) : w.move p i = .enter entry.direction := by
  rw [World.move, hp, h]

theorem move_leave {d : Direction} (hp : p.direction? = some d) :
    w.move p i =
      if (w.strategy.exits.find? fun e => w.guardTruth p i e.guard).isSome
      then .leave d else .stay := by
  rw [World.move, hp]
  cases w.strategy.exits.find? fun e => w.guardTruth p i e.guard <;> rfl

end

/-- What is done at a bar where the guards have known truths. -/
def moveBy (s : Strategy) (truth : Option Expr → Bool) (p : Position) : Move :=
  match p.direction? with
  | none =>
    match (s.entries.find? fun e => truth e.guard).map Entry.direction with
    | some direction => .enter direction
    | none => .stay
  | some direction =>
    if s.exits.any fun e => truth e.guard then .leave direction else .stay

theorem move_eq_moveBy (w : World) (p : Position) (i : Nat) :
    w.move p i = moveBy w.strategy (w.guardTruth p i) p := by
  unfold World.move moveBy
  cases p.direction? with
  | none =>
      cases w.strategy.entries.find? fun e => w.guardTruth p i e.guard <;> rfl
  | some direction =>
      dsimp only
      rw [← List.isSome_find?]
      cases w.strategy.exits.find? fun e => w.guardTruth p i e.guard <;> rfl

/-- What is held after a move. -/
def Move.position (p : Position) : Move → Position
  | .stay => p
  | .enter direction => .ofDirection direction
  | .leave _ => .flat

/-- A trade or a signal: the number of its bar, its price and what it asks
for. -/
abbrev Event := Nat × Float × SignalKind

/-- The event of a move, if it is one. -/
def Move.events (index : Nat) (price : Float) : Move → List Event
  | .stay => []
  | .enter direction => [(index, price, .entering direction)]
  | .leave direction => [(index, price, .leaving direction)]

/-- The events at some bars, numbered from `index`. -/
def World.events (w : World) (p : Position) (index : Nat) :
    List Bar → List Event
  | [] => []
  | bar :: rest =>
    (w.move p index).events index bar.close ++
      w.events ((w.move p index).position p) (index + 1) rest

/-- A trade as an event. -/
def tradeEvent (t : Trade) : Event :=
  (t.bar, t.price, match t.kind with
    | .entry => .entering t.direction
    | .exit => .leaving t.direction)

/-- The progress after a move. -/
def Move.applied (q : Progress) (bar : Bar) (index : Nat) : Move → Progress
  | .stay => q
  | .enter direction => q.enter direction bar index
  | .leave direction => q.leave direction bar index

theorem position_applied (q : Progress) (bar : Bar) (index : Nat)
    (move : Move) : (move.applied q bar index).position =
      move.position q.position := by
  cases move <;> rfl

theorem trades_applied (q : Progress) (bar : Bar) (index : Nat)
    (move : Move) : (move.applied q bar index).trades.map tradeEvent =
      q.trades.map tradeEvent ++ move.events index bar.close := by
  cases move with
  | stay => exact (List.append_nil _).symm
  | enter direction => exact List.map_append
  | leave direction => exact List.map_append

/-- **Where the answers to guards are their truths a bar is answered by the
move.** -/
theorem yields_tradeBy {σ : Type} {P : σ → Prop} {s : Strategy}
    {holds : Answering σ} {truth : Option Expr → Bool} {i : Nat} (q : Progress)
    (hentries : ∀ k entry, s.entries[k]? = some entry →
      Yields P (holds q.position (.entry k) entry.guard i) (truth entry.guard))
    (hexits : ∀ k exit, s.exits[k]? = some exit →
      Yields P (holds q.position (.exit k) exit.guard i) (truth exit.guard))
    (bar : Bar) :
    Yields P (q.tradeBy s holds bar i)
      ((moveBy s truth q.position).applied q bar i) := by
  unfold Progress.tradeBy moveBy
  cases q.position.direction? with
  | none =>
      have hfirst : Yields P
          (firstPassing (fun k (entry : Entry) =>
            holds q.position (.entry k) entry.guard i) 0 s.entries)
          (s.entries.find? fun e => truth e.guard) := by
        refine .firstPassing 0 s.entries fun k entry hentry => ?_
        rw [Nat.zero_add]
        exact hentries k entry hentry
      refine hfirst.bind ?_
      cases s.entries.find? fun e => truth e.guard with
      | some entry => exact .pure _
      | none => exact .pure _
  | some direction =>
      have hfirst : Yields P
          (firstPassing (fun k (exit : Exit) =>
            holds q.position (.exit k) exit.guard i) 0 s.exits)
          (s.exits.find? fun e => truth e.guard) := by
        refine .firstPassing 0 s.exits fun k exit hexit => ?_
        rw [Nat.zero_add]
        exact hexits k exit hexit
      refine hfirst.bind ?_
      rw [← List.isSome_find?]
      cases s.exits.find? fun e => truth e.guard with
      | some exit => exact .pure _
      | none => exact .pure _

/-! ## Backtests -/

/-- What a backtest remembers are values of expressions when nothing was
evaluated before. -/
structure FaithfulMemory (w : World) (memory : Memory) : Prop where
  cache : ∀ p, Faithful (w.holding p) w.InScript memory.cache
  guards : ∀ key p v, memory.guards.lookup (key, p) = some v →
    ∀ g, w.guardOf? key = some g → v = (w.holding p).fresh w.bars.length g

theorem FaithfulMemory.empty (w : World) : FaithfulMemory w ⟨[], []⟩ := by
  refine ⟨fun p => .empty _ _, ?_⟩
  intro key p v hv
  cases hv

section

variable {w : World}

/-- A guard evaluated over all bars joins the memory. -/
theorem FaithfulMemory.remember {memory : Memory}
    (hm : FaithfulMemory w memory) {key : GuardKey} {g : Expr}
    (hkey : w.guardOf? key = some g) (p : Position) {cache : Cache}
    (hcache : ∀ q, Faithful (w.holding q) w.InScript cache) :
    FaithfulMemory w ⟨cache, ((key, p),
      (w.holding p).fresh w.bars.length g) :: memory.guards⟩ := by
  refine ⟨hcache, ?_⟩
  intro key' p' v hv g' hg'
  rw [List.lookup_cons] at hv
  split at hv
  · -- The same key and position: this is the value that was just kept.
    rename_i heq
    cases eq_of_beq heq
    rw [hkey] at hg'
    cases hg'
    exact (Option.some.inj hv).symm
  · exact hm.guards key' p' v hv g' hg'

/-- A backtest answers a guard as if nothing was evaluated before. -/
theorem yields_guardHoldsAt (ho : w.PlainOverrides) (h : SteadyScript w)
    (hr : Regular w w.InScript) {key : GuardKey} {guard : Option Expr}
    (hkey : w.guardOf? key = guard) {i : Nat} (hi : i < w.bars.length)
    (p : Position) :
    Yields (FaithfulMemory w) ((w.holding p).guardHoldsAt key guard i)
      (w.guardTruth p i guard) := by
  cases guard with
  | none => exact .pure true
  | some g =>
      have hg := isGuard_of_guardOf? hkey
      have hmem : w.InScript g := ⟨g, Or.inl hg, .refl⟩
      -- Evaluation in any view leaves a cache that is faithful everywhere.
      have hvalue : ∀ {memory}, FaithfulMemory w memory → ∀ shown,
          ((w.holding p).valueOn shown g memory.cache).1 =
              (w.holding p).fresh shown g ∧
            ∀ q, Faithful (w.holding q) w.InScript
              ((w.holding p).valueOn shown g memory.cache).2 := by
        intro memory hm shown
        obtain ⟨hvalue, hcache⟩ :=
          evaluate_eq_fresh hr hmem (.all w g) p shown (hm.cache p)
        exact ⟨hvalue, fun q => hcache.holding hr h.positionFree q⟩
      intro memory hm
      cases hview : dependsOnView w.strategy g with
      | true =>
          obtain ⟨hvalue, hcache⟩ := hvalue hm (i + 1)
          rw [guardHoldsAt_view (w := w.holding p) hview]
          refine ⟨?_, hcache, hm.guards⟩
          show ((w.holding p).valueOn (i + 1) g memory.cache).1.isTruthy = _
          rw [hvalue]
          exact isTruthy_fresh ho h hr hg hi p
      | false =>
          cases hlookup : memory.guards.lookup (key, p) with
          | some v =>
              rw [guardHoldsAt_hit (w := w.holding p) hview hlookup]
              refine ⟨?_, hm⟩
              show v.truthyAt i = _
              rw [hm.guards key p v hlookup g hkey]
              exact truthyAt_fresh ho h hr hg hview hi p
          | none =>
              obtain ⟨hvalue, hcache⟩ := hvalue hm w.bars.length
              rw [guardHoldsAt_miss (w := w.holding p) hview hlookup]
              have hall : (w.holding p).value g memory.cache =
                (w.holding p).valueOn w.bars.length g memory.cache := rfl
              rw [hall, hvalue]
              exact ⟨truthyAt_fresh ho h hr hg hview hi p,
                hm.remember hkey p hcache⟩

/-- A backtest makes the move of the script at each bar. -/
theorem yields_trade (ho : w.PlainOverrides) (h : SteadyScript w)
    (hr : Regular w w.InScript) (q : Progress) (bar : Bar) {i : Nat}
    (hi : i < w.bars.length) :
    Yields (FaithfulMemory w) (q.trade w bar i)
      ((w.move q.position i).applied q bar i) := by
  rw [trade_eq_tradeBy, move_eq_moveBy]
  refine yields_tradeBy q ?_ ?_ bar
  · intro k entry hentry
    exact yields_guardHoldsAt ho h hr (guardOf?_entry hentry) hi q.position
  · intro k exit hexit
    exact yields_guardHoldsAt ho h hr (guardOf?_exit hexit) hi q.position

/-- **The trades of a backtest are the events of the script.** -/
theorem trades_over (ho : w.PlainOverrides) (h : SteadyScript w)
    (hr : Regular w w.InScript) (q : Progress) (bars : List Bar) (i : Nat)
    (hi : i + bars.length ≤ w.bars.length) {memory : Memory}
    (hm : FaithfulMemory w memory) :
    (q.over w i bars memory).1.trades.map tradeEvent =
      q.trades.map tradeEvent ++ w.events q.position i bars := by
  induction bars generalizing q i memory with
  | nil => exact (List.append_nil _).symm
  | cons bar rest ih =>
      rw [List.length_cons] at hi
      obtain ⟨hnext, hmemory⟩ :=
        yields_trade ho h hr q bar (show i < _ by omega) memory hm
      show ((q.trade w bar i memory).1.note.over w (i + 1) rest
        (q.trade w bar i memory).2).1.trades.map tradeEvent = _
      rw [hnext, ih _ (i + 1) (by omega) hmemory, World.events]
      show ((w.move q.position i).applied q bar i).trades.map tradeEvent ++
        w.events ((w.move q.position i).applied q bar i).position (i + 1)
          rest = _
      rw [trades_applied, position_applied, List.append_assoc]

end

end Barscript.Session

import Barscript.Proofs.Session.Expansion
import Barscript.Proofs.Session.Guards
import Barscript.Proofs.Session.Pinning
import Barscript.Proofs.Session.Transparency

/-!
# The order of interchangeable rules

A backtest looks for the first rule that applies, so the order of the rules
decides which guards are evaluated and what is remembered when. Where every
guard has one value at a bar in a position, that does not show: a rule for
leaving does what any other does, and so does a rule for entering in the same
direction. Reports do not change when rules for leaving change places, or
neighbouring rules for entering in one direction (`runBacktest_reordered`). An
indicator call that reads the position has no such value, and there the order
shows (`reordering_shows`).
-/

namespace Barscript.Session

open Barscript.Script Barscript.Series Barscript.Builtin Barscript.Market
open Barscript.Trading

/-! ## Other rules, the same names -/

/-- The same names have the same definitions and inputs. -/
structure SameNames (s t : Strategy) : Prop where
  definitions : t.definitions = s.definitions
  inputs : t.inputs = s.inputs

section

variable {w : World} {t : Strategy}

mutual

/-- **An evaluation looks at the names of a script only.** -/
theorem SameNames.evaluate (h : SameNames w.strategy t) (A : Definitions)
    (shown : Nat) (e : Expr) :
    evaluate (w.scripted t) A shown e = evaluate w A shown e := by
  match e with
  | .literal value => rw [Session.evaluate, Session.evaluate]
  | .ref name =>
      rw [Session.evaluate, Session.evaluate]
      exact h.readName A shown name
  | .call id name args =>
      cases hname : isIndicatorName name with
      | true =>
          rw [evaluate_indicator hname, evaluate_indicator hname]
          show keepCall id (do
            let values ← Session.evaluateArguments (w.scripted t) A
              w.bars.length args
            pure (w.computed name values)) shown = _
          rw [h.evaluateArguments A w.bars.length args]
      | false =>
          rw [evaluate_function hname, evaluate_function hname,
            h.evaluateArguments A shown args]
  | .binary op left right =>
      rw [Session.evaluate, Session.evaluate, h.evaluate A shown left,
        h.evaluate A shown right]
  | .unary op operand =>
      rw [Session.evaluate, Session.evaluate, h.evaluate A shown operand]
  | .ternary condition whenTrue whenFalse =>
      rw [Session.evaluate, Session.evaluate, h.evaluate A shown condition,
        h.evaluate A shown whenTrue, h.evaluate A shown whenFalse]
  | .indexed name offset =>
      rw [Session.evaluate, Session.evaluate, h.readName A shown name,
        h.evaluate A shown offset]
termination_by weightDefinitions A + weight e
decreasing_by all_goals simp only [weight]; omega

theorem SameNames.evaluateArguments (h : SameNames w.strategy t)
    (A : Definitions) (shown : Nat) (args : List (Argument Expr)) :
    evaluateArguments (w.scripted t) A shown args =
      evaluateArguments w A shown args := by
  match args with
  | [] => rw [Session.evaluateArguments, Session.evaluateArguments]
  | ⟨name, value⟩ :: rest =>
      rw [Session.evaluateArguments, Session.evaluateArguments,
        h.evaluate A shown value, h.evaluateArguments A shown rest]
termination_by weightDefinitions A + weightArguments args
decreasing_by all_goals simp only [weightArguments]; omega

theorem SameNames.readName (h : SameNames w.strategy t) (A : Definitions)
    (shown : Nat) (name : String) :
    readName (w.scripted t) A shown name = readName w A shown name := by
  have hdefined := fun name => h.readDefined A shown name
  have hdefinitions : (w.scripted t).strategy.definitions =
      w.strategy.definitions := h.definitions
  have hinputs : (w.scripted t).strategy.inputs = w.strategy.inputs := h.inputs
  rw [Session.readName, Session.readName, hdefinitions, hinputs]
  simp only [hdefined]
  rfl
termination_by weightDefinitions A + 1
decreasing_by all_goals omega

theorem SameNames.readDefined (h : SameNames w.strategy t) (A : Definitions)
    (shown : Nat) (name : String) :
    readDefined (w.scripted t) A shown name = readDefined w A shown name := by
  cases hf : w.isFixed name with
  | true =>
      obtain ⟨v, hv⟩ := Option.isSome_iff_exists.mp
        ((isSome_fixed? w name shown).trans hf)
      rw [readDefined_fixed hv, readDefined_fixed (w := w.scripted t) hv]
  | false =>
      have hf' : (w.scripted t).isFixed name = false := hf
      cases hr : release? name A with
      | some found =>
          obtain ⟨e, left⟩ := found
          rw [readDefined_entered hf hr, readDefined_entered hf' hr]
          exact h.evaluate left shown e
      | none => rw [readDefined_absent hf hr, readDefined_absent hf' hr]
termination_by weightDefinitions A
decreasing_by
  have hweight := weight_release? hr
  omega

end

end

section

variable {s t : Strategy}

theorem SameNames.variableOf (h : SameNames s t) (name : String) :
    variableOf t name = variableOf s name := by
  unfold Session.variableOf
  rw [h.definitions]

theorem SameNames.reachesView (h : SameNames s t) (A : Definitions)
    (names : List String) : reachesView t A names = reachesView s A names := by
  induction A, names using reachesView.induct s with
  | case1 => rw [Session.reachesView, Session.reachesView]
  | case2 A name rest hnone ih =>
      rw [reachesView_absent hnone,
        reachesView_absent ((h.variableOf name).symm ▸ hnone)]
      exact ih
  | case3 A name rest value left hr ih =>
      rw [reachesView_entered hr,
        reachesView_entered ((h.variableOf name).symm ▸ hr), ih]

/-- The names decide what depends on the view. -/
theorem SameNames.dependsOnView (h : SameNames s t) (e : Expr) :
    dependsOnView t e = dependsOnView s e := by
  unfold Session.dependsOnView
  rw [h.definitions, h.reachesView]

end

/-! ## Rules that change places -/

/-- The same rules for entering in another order: neighbours in one direction
changed places, once or several times. -/
inductive Regrouped : List Entry → List Entry → Prop where
  | nil : Regrouped [] []
  | cons (entry : Entry) {xs ys : List Entry} (h : Regrouped xs ys) :
      Regrouped (entry :: xs) (entry :: ys)
  | swap {a b : Entry} (h : a.direction = b.direction) (rest : List Entry) :
      Regrouped (a :: b :: rest) (b :: a :: rest)
  | trans {xs ys zs : List Entry} (h : Regrouped xs ys)
      (h' : Regrouped ys zs) : Regrouped xs zs

/-- The second strategy is the first one with its rules for leaving in any
order and those for entering regrouped. -/
structure Reordered (s t : Strategy) : Prop where
  names : SameNames s t
  entries : Regrouped s.entries t.entries
  exits : s.exits.Perm t.exits

theorem Regrouped.perm {xs ys : List Entry} (h : Regrouped xs ys) :
    xs.Perm ys := by
  induction h with
  | nil => exact .nil
  | cons entry _ ih => exact ih.cons entry
  | swap _ rest => exact .swap _ _ rest
  | trans _ _ ih ih' => exact ih.trans ih'

/-- The first rule that applies may be another one, but not in another
direction. -/
theorem Regrouped.direction_find? {xs ys : List Entry} (h : Regrouped xs ys)
    (applies : Entry → Bool) :
    (ys.find? applies).map Entry.direction =
      (xs.find? applies).map Entry.direction := by
  induction h with
  | nil => rfl
  | cons entry _ ih =>
      rw [List.find?_cons, List.find?_cons]
      cases applies entry with
      | true => rfl
      | false => exact ih
  | @swap a b hdirection rest =>
      simp only [List.find?_cons]
      cases applies a with
      | true =>
          cases applies b with
          | true => exact congrArg some hdirection.symm
          | false => rfl
      | false => rfl
  | trans _ _ ih ih' => exact ih'.trans ih

/-- **The order of interchangeable rules does not show in a move.** -/
theorem Reordered.moveBy {s t : Strategy} (h : Reordered s t)
    (truth : Option Expr → Bool) (p : Position) :
    moveBy t truth p = moveBy s truth p := by
  unfold Session.moveBy
  rw [h.entries.direction_find?, h.exits.any_eq]

/-! ## Answers that do not depend on the order -/

/-- Whether a guard holds at a bar when nothing was evaluated before, seen in
the view that ends there or read off its value over all bars. -/
def World.freshTruth (w : World) (p : Position) (i : Nat) :
    Option Expr → Bool
  | none => true
  | some g =>
    if dependsOnView w.strategy g then
      ((w.holding p).fresh (i + 1) g).isTruthy
    else ((w.holding p).fresh w.bars.length g).truthyAt i

/-- The cache holds what the indicator calls of the script are when nothing was
evaluated before, whichever position is held. -/
def FaithfulThroughout (w : World) (c : Cache) : Prop :=
  ∀ p, Faithful (w.holding p) w.InScript c

section

variable {w : World} {t : Strategy}

/-- What is kept of other guards does not show in the answer to a guard. -/
theorem yields_anew (hr : Regular w w.InScript)
    (hfree : PositionFree w w.InScript) {guard : Option Expr}
    (hguard : ∀ g, guard = some g → w.IsGuard g) (p : Position)
    (key : GuardKey) (i : Nat) :
    Yields (FaithfulThroughout w) (w.anew p key guard i)
      (w.freshTruth p i guard) := by
  cases guard with
  | none => exact .pure true
  | some g =>
      have hmem : w.InScript g := ⟨g, Or.inl (hguard g rfl), .refl⟩
      have hvalue : ∀ shown, Yields (FaithfulThroughout w)
          ((w.holding p).valueOn shown g) ((w.holding p).fresh shown g) := by
        intro shown c hc
        obtain ⟨heq, hcache⟩ :=
          evaluate_eq_fresh hr hmem (.all w g) p shown (hc p)
        exact ⟨heq, hcache.holding hr hfree⟩
      show Yields _ ((w.holding p).readGuard (dependsOnView w.strategy g) g i)
        (if dependsOnView w.strategy g then
          ((w.holding p).fresh (i + 1) g).isTruthy
        else ((w.holding p).fresh w.bars.length g).truthyAt i)
      unfold World.readGuard
      split
      · exact (hvalue (i + 1)).bind (.pure _)
      · exact (hvalue w.bars.length).bind (.pure _)

/-- Other rules answer a guard with the same evaluation. -/
theorem SameNames.anew (h : SameNames w.strategy t) :
    (w.scripted t).anew = w.anew := by
  funext p key guard i
  cases guard with
  | none => rfl
  | some g =>
      have hvalue : ∀ shown, ((w.scripted t).holding p).valueOn shown g =
          (w.holding p).valueOn shown g := by
        intro shown
        show Session.evaluate ((w.holding p).scripted t) t.definitions.toList
          shown g = _
        have hnames : SameNames (w.holding p).strategy t := h
        rw [hnames.evaluate, h.definitions]
        rfl
      show ((w.scripted t).holding p).readGuard (Session.dependsOnView t g) g i =
        (w.holding p).readGuard (Session.dependsOnView w.strategy g) g i
      rw [h.dependsOnView]
      unfold World.readGuard World.value
      rw [hvalue, hvalue]
      rfl

/-- The rules of the reordered script are rules of the script. -/
theorem yields_tradeBy_anew (hr : Regular w w.InScript)
    (hfree : PositionFree w w.InScript)
    (hentries : t.entries ⊆ w.strategy.entries)
    (hexits : t.exits ⊆ w.strategy.exits) (q : Progress) (bar : Bar) (i : Nat) :
    Yields (FaithfulThroughout w) (q.tradeBy t w.anew bar i)
      ((moveBy t (w.freshTruth q.position i) q.position).applied q bar i) := by
  refine yields_tradeBy q ?_ ?_ bar
  · intro k entry hentry
    refine yields_anew hr hfree ?_ q.position _ i
    exact fun g hg =>
      Or.inl ⟨entry, hentries (List.mem_of_getElem? hentry), hg⟩
  · intro k exit hexit
    refine yields_anew hr hfree ?_ q.position _ i
    exact fun g hg => Or.inr ⟨exit, hexits (List.mem_of_getElem? hexit), hg⟩

/-- **A script and the reordered one make the same progress**, from caches that
need not be the same. -/
theorem Reordered.overBy (h : Reordered w.strategy t)
    (hr : Regular w w.InScript) (hfree : PositionFree w w.InScript)
    (q : Progress) (i : Nat) (bars : List Bar) :
    Together (fun c d => FaithfulThroughout w c ∧ FaithfulThroughout w d) Eq
      (q.overBy w.strategy w.anew i bars) (q.overBy t w.anew i bars) := by
  induction bars generalizing q i with
  | nil => exact .pure rfl
  | cons bar rest ih =>
      have hleft := yields_tradeBy_anew hr hfree (List.Subset.refl _)
        (List.Subset.refl _) q bar i
      have hright := yields_tradeBy_anew hr hfree h.entries.perm.symm.subset
        h.exits.symm.subset q bar i
      rw [h.moveBy] at hright
      refine Together.bind (V := Eq) ?_ ?_
      · rintro c d ⟨hc, hd⟩
        obtain ⟨hnext, hc'⟩ := hleft c hc
        obtain ⟨hnext', hd'⟩ := hright d hd
        exact ⟨hnext.trans hnext'.symm, hc', hd'⟩
      · rintro next _ rfl
        exact ih next.note (i + 1)

/-- The identities of the calls belong to one call each. -/
theorem Identified.regular (hids : Identified w.strategy)
    (hacyclic : w.Acyclic) (hfree : PositionFree w w.InScript) :
    Regular w w.InScript :=
  (Lasting.of_closed hids (fun e _ => hacyclic.not_loops e) inScript_part
    (fun _ => indicatorCalls_inScript hids.listed) hfree).regular

end

/-- **The order of interchangeable rules is irrelevant in a backtest.** In a
session whose script lists its indicator calls by their identities, as every
script that parses does, no variable reaches itself, and no argument of an
indicator call reads the position: then the report is the same when the rules
for leaving change places, and neighbouring rules for entering in one
direction. -/
theorem runBacktest_reordered {s : Session} {t : Strategy}
    (hids : Identified s.strategy) (hacyclic : s.toWorld.Acyclic)
    (hfree : PositionFree s.toWorld s.toWorld.InScript)
    (h : Reordered s.strategy t) (config : Config) :
    (({ s with strategy := t } : Session).runBacktest config).1 =
      (s.runBacktest config).1 := by
  have hr := hids.regular hacyclic hfree
  have hprogress : (s.toWorld.backtest config.capital ⟨[], []⟩).1 =
      ((s.toWorld.scripted t).backtest config.capital ⟨[], []⟩).1 := by
    rw [backtest_anew, backtest_anew, h.names.anew]
    exact (h.overBy hr hfree (.start config.capital) 1 s.bars.tail [] []
      ⟨fun _ => .empty _ _, fun _ => .empty _ _⟩).1
  exact congrArg (fun q : Progress => Report.of config q.trades q.curve)
    hprogress.symm

/-- A script with two rules for entering in one direction and two for
leaving. -/
def crowdedScript : String :=
  "strategy.entry(\"A\", when=ta.change(close, 2))\nstrategy.entry(\"B\", when=ta.change(close, 1))\nstrategy.exit(\"A\", when=ta.change(close, 1))\nstrategy.exit(\"B\", when=ta.change(close, 3))"

/-- The strategy with its rules in the opposite order. -/
def turned (s : Strategy) : Strategy :=
  { s with entries := s.entries.reverse, exits := s.exits.reverse }

/-- Two rules in one direction may be turned. -/
theorem reordered_turned {s : Strategy} {a b : Entry}
    (hentries : s.entries = [a, b]) (hdirection : a.direction = b.direction) :
    Reordered s (turned s) where
  names := ⟨rfl, rfl⟩
  entries := by
    show Regrouped s.entries s.entries.reverse
    rw [hentries]
    exact .swap hdirection []
  exits := (List.reverse_perm _).symm

/-- The reports on all bars are the same when both pairs of rules change
places. -/
theorem runBacktest_reordered_crowded :
    ∃ strategy, Strategy.parse crowdedScript = .ok strategy ∧
      strategy.entries.length = 2 ∧ strategy.exits.length = 2 ∧
      ∀ bars config,
        (((start (turned strategy) "").loadBars bars).runBacktest config).1 =
          (((start strategy "").loadBars bars).runBacktest config).1 := by
  have hshape : (Strategy.parse crowdedScript).toOption.map (fun s =>
      (isSteady s 4, s.entries.map Entry.direction, s.exits.length)) =
      some (true, [.long, .long], 2) := by
    decide +kernel
  obtain ⟨strategy, hparse, htriple⟩ := exists_ok_of_map hshape
  have htests : isSteady strategy 4 = true := congrArg Prod.fst htriple
  have hdirections : strategy.entries.map Entry.direction =
      [.long, .long] := congrArg (fun x => x.2.1) htriple
  obtain ⟨a, b, hentries, ha, hb⟩ : ∃ a b, strategy.entries = [a, b] ∧
      a.direction = .long ∧ b.direction = .long := by
    obtain ⟨a, rest, hentries, ha, hrest⟩ :=
      List.map_eq_cons_iff.mp hdirections
    obtain ⟨b, none, rfl, hb, hnone⟩ := List.map_eq_cons_iff.mp hrest
    obtain rfl := List.map_eq_nil_iff.mp hnone
    exact ⟨a, b, hentries, ha, hb⟩
  obtain ⟨hlisted, hdistinct⟩ := identified_of_parse hparse
  refine ⟨strategy, hparse, by rw [hentries]; rfl,
    congrArg (fun x => x.2.2) htriple, fun bars config => ?_⟩
  have hsteady : SteadyScript
      ((start strategy "").loadBars bars).toWorld :=
    steadyScript_of_isSteady rfl htests
  exact runBacktest_reordered (s := (start strategy "").loadBars bars)
    ⟨hlisted, hdistinct⟩ hsteady.acyclic hsteady.positionFree
    (reordered_turned hentries (ha.trans hb.symm)) config

/-! ## Where the order shows -/

/-- The strategy with its rules for leaving in the opposite order. -/
def leavingTurned (s : Strategy) : Strategy :=
  { s with exits := s.exits.reverse }

theorem Regrouped.refl (xs : List Entry) : Regrouped xs xs := by
  induction xs with
  | nil => exact .nil
  | cons entry _ ih => exact .cons entry ih

theorem reordered_leavingTurned (s : Strategy) :
    Reordered s (leavingTurned s) where
  names := ⟨rfl, rfl⟩
  entries := .refl s.entries
  exits := (List.reverse_perm _).symm

/-- A script whose second rule for leaving computes an indicator of the
position. -/
def heldLeavingScript : String :=
  "strategy.entry(\"L\", when=close > 4)\nstrategy.entry(\"S\", \"short\", when=close < 2)\nstrategy.exit(\"L\", when=strategy.position_size > 0)\nstrategy.exit(\"S\", when=ta.ema(strategy.position_size) < 0)"

/-- A long trade is open on the third bar and a short one on the fifth. -/
def heldLeavingBars : List Bar :=
  [stillBar 3.0, stillBar 5.0, stillBar 5.0, stillBar 1.0, stillBar 1.0]

/-- How many trades a backtest takes, and how many with the rules for leaving
in the opposite order. -/
def turnedCounts (source : String) (bars : List Bar) : Option (Nat × Nat) :=
  (Strategy.parse source).toOption.map fun strategy =>
    let count (s : Strategy) :=
      (((start s "").loadBars bars).runBacktest .default).1.trades.length
    (count strategy, count (leavingTurned strategy))

/-- The order shows on an indicator call that reads the position: it is kept
from the trade in which it is computed first. -/
theorem reordering_shows :
    ∃ strategy, Strategy.parse heldLeavingScript = .ok strategy ∧
      Reordered strategy (leavingTurned strategy) ∧
      (((start (leavingTurned strategy) "").loadBars
          heldLeavingBars).runBacktest .default).1 ≠
        (((start strategy "").loadBars
          heldLeavingBars).runBacktest .default).1 := by
  have hcounts : turnedCounts heldLeavingScript heldLeavingBars =
      some (4, 3) := by
    decide +kernel
  unfold turnedCounts at hcounts
  obtain ⟨strategy, hparse, hpair⟩ := exists_ok_of_map hcounts
  refine ⟨strategy, hparse, reordered_leavingTurned strategy, fun heq => ?_⟩
  have hsame := congrArg (fun report => report.trades.length) heq
  have hfour := congrArg Prod.fst hpair
  have hthree := congrArg Prod.snd hpair
  exact absurd (hthree.symm.trans (hsame.trans hfour)) (by decide)

end Barscript.Session

import Barscript.Proofs.Session.Alike
import Barscript.Proofs.Session.Pinning
import Barscript.Proofs.Session.Transparency

/-!
# Calls that a declaration shares

Where the variable is defined, reading it evaluates its declaration, and the
indicator calls in there are kept. Where it is pinned they are not. That shows
only on calls that are read apart from the declaration, too (`Shared`). If the
values of these can be kept, then the two worlds answer alike
(`Pinned.alike`): their caches agree on all calls that the declaration does not
read, and hold of the shared ones what these are (`CachesMatch`).
-/

namespace Barscript.Session

open Barscript.Script Barscript.Series Barscript.Builtin Barscript.Market
open Barscript.Trading

/-! ## Reading in both worlds -/

section

variable {w w' : World} {x name : String} {v : Value} {d e f : Expr}
  {available : Definitions} {roots : Expr → Prop}

theorem Pinned.enters (h : Pinned w w' x v d)
    (hentered : w.entered? name = some f) :
    w'.entered? name = some f ∧ variableOf w.strategy name ≠ x := by
  rw [h.entered?] at hentered
  split at hentered
  · cases hentered
  · rename_i hne
    exact ⟨hentered, hne⟩

theorem Pinned.part (h : Pinned w w' x v d)
    (hpart : Part w.entered? true e f) : Part w'.entered? true e f := by
  cases hpart with
  | definition hname hentered => exact .definition hname (h.enters hentered).1
  | offset => exact .offset
  | argument hinto ha => exact .argument hinto ha
  | left => exact .left
  | right => exact .right
  | operand => exact .operand
  | condition => exact .condition
  | whenTrue => exact .whenTrue
  | whenFalse => exact .whenFalse

theorem Pinned.reads (h : Pinned w w' x v d) (hreads : Reads w true e f) :
    Reads w' true e f :=
  Relation.ReflTransGen.mono (fun _ _ => h.part) _ _ hreads

theorem Pinned.loops (h : Pinned w w' x v d) (hloops : w.Loops e) :
    w'.Loops e := by
  obtain ⟨name, value, hname, hentered, f, name', hreads, hname', hsome,
    heq⟩ := hloops
  obtain ⟨value', hentered'⟩ := Option.isSome_iff_exists.mp hsome
  refine ⟨name, value, hname, (h.enters hentered).1, f, name',
    h.reads hreads, hname', ?_, ?_⟩
  · rw [(h.enters hentered').1]
    rfl
  · rw [h.variableOf_eq, h.variableOf_eq]
    exact heq

/-- What is read with some definitions left is inside of the others. -/
theorem ReadWith.inside (h : ReadWith w roots available e) :
    Inside w available e := by
  induction h with
  | root _ => exact .all w _
  | piece _ hpiece ih => exact ih.part hpiece.part
  | definition _ hname hentered hr ih => exact ih.definition hname hentered hr

/-- The variable is never entered in the first world, so its definition is
left. -/
theorem Pinned.release?_self (h : Pinned w w' x v d)
    (hread : ReadWith w roots available e) :
    ∃ value left, release? x available = some (value, left) := by
  induction hread with
  | root _ =>
      obtain ⟨value, hvalue⟩ := Option.isSome_iff_exists.mp
        (Std.ExtTreeMap.contains_eq_isSome_getElem?.symm.trans h.defined)
      exact ⟨value, release?_definitions hvalue⟩
  | piece _ _ ih => exact ih
  | definition _ _ hentered hr ih =>
      obtain ⟨value, left, hx⟩ := ih
      exact ⟨value, release?_of_ne hr (h.enters hentered).2.symm hx⟩

/-- What is inside of some definitions in the first world is so in the second
one. -/
theorem Pinned.inside (h : Pinned w w' x v d)
    (hread : ReadWith w roots available e) :
    Inside w' (redefine x d available) e where
  sublist := by
    rw [h.definitions]
    exact hread.inside.sublist.map _
  reads key value hvalue hnone := by
    obtain ⟨u, left, hx⟩ := h.release?_self hread
    rw [release?_redefine, Option.map_eq_none_iff] at hnone
    have hkey : key ≠ x := by
      rintro rfl
      rw [hx] at hnone
      cases hnone
    rw [h.getElem?, if_neg hkey] at hvalue
    exact h.reads (hread.inside.reads key value hvalue hnone)

end

/-- The expressions of a set that holds all they read. -/
def Scope.closed (w : World) (S : Expr → Prop)
    (hS : ∀ {e f : Expr}, S e → Part w.entered? true e f → S f) :
    Scope w where
  contains available e := available.Sublist w.definitions ∧ S e
  sublist h := h.1
  piece h hpiece := ⟨h.1, hS h.2 hpiece.part⟩
  definition h hname hentered hr :=
    ⟨(release?_sublist hr).2.trans h.1, hS h.2 (.definition hname hentered)⟩

/-! ## Expressions that do not read the variable -/

section

variable {w w' : World} {x : String} {v : Value} {d : Expr} {p : Position}
  {S : Expr → Prop} {scope : Scope w} {R : Cache → Cache → Prop}

theorem Pinned.computed_eq (h : Pinned w w' x v d) (name : String)
    (values : List (Argument Value)) :
    w'.computed name values = w.computed name values := by
  unfold World.computed
  rw [h.bars]

/-- An indicator call that both caches hold alike has one value in both worlds,
and the caches stay related if they stay so with one more value on both
sides. -/
theorem Pinned.together_call (h : Pinned w w' x v d)
    {available : Definitions} {id : Nat} {name : String}
    {args : List (Argument Expr)} (hname : isIndicatorName name = true)
    (hargs : Together R Eq
      (evaluateArguments (w.holding p) available w.bars.length args)
      (evaluateArguments (w'.holding p) (redefine x d available)
        w.bars.length args))
    (hlookup : ∀ {c c'}, R c c' → c.lookup id = c'.lookup id)
    (hcons : ∀ {c c'} (u : Value), R c c' → R ((id, u) :: c) ((id, u) :: c'))
    (shown : Nat) :
    Together R Eq (evaluate (w.holding p) available shown (.call id name args))
      (evaluate (w'.holding p) (redefine x d available) shown
        (.call id name args)) := by
  intro c c' hc
  have hsame := hlookup hc
  cases hknown : c.lookup id with
  | some u =>
      rw [hknown] at hsame
      rw [evaluate_hit hname hknown, evaluate_hit hname hsame.symm]
      exact ⟨rfl, hc⟩
  | none =>
      rw [hknown] at hsame
      rw [evaluate_miss hname hknown, evaluate_miss hname hsame.symm]
      obtain ⟨hvalues, hafter⟩ := hargs c c' hc
      have hlength : (w'.holding p).bars.length = w.bars.length :=
        congrArg List.length h.bars
      rw [hlength]
      dsimp only
      rw [(h.holding p).computed_eq, ← hvalues]
      exact ⟨rfl, hcons _ hafter⟩

/-- What never reads the variable is evaluated in the same way in both
worlds. -/
theorem Pinned.together_closed (h : Pinned w w' x v d)
    (hclosed : ∀ {e f : Expr}, S e → Part w'.entered? true e f → S f)
    (havoids : ∀ {e : Expr}, S e → ∀ {name}, nameRead? e = some name →
      w'.entered? name ≠ some d)
    {available : Definitions} (hsub : available.Sublist w.definitions)
    (shown : Nat) {e : Expr} (he : S e) :
    Together Eq Eq (evaluate (w.holding p) available shown e)
      (evaluate (w'.holding p) (redefine x d available) shown e) := by
  let scope : Scope w := .closed w S fun he hpart => hclosed he (h.part hpart)
  have hcontains : scope.contains available e := ⟨hsub, he⟩
  refine h.together ?_ ?_ shown e hcontains
  · intro available id name args hname _ hargs
    refine h.together_call hname hargs ?_ ?_
    · rintro c _ rfl
      rfl
    · rintro c _ u rfl
      rfl
  · intro available e name he hname _ hentered
    exact absurd hentered (havoids he.2 hname)

/-- It has the same value when nothing was evaluated before. -/
theorem Pinned.fresh_eq (h : Pinned w w' x v d)
    (hclosed : ∀ {e f : Expr}, S e → Part w'.entered? true e f → S f)
    (havoids : ∀ {e : Expr}, S e → ∀ {name}, nameRead? e = some name →
      w'.entered? name ≠ some d)
    (p : Position) (shown : Nat) {e : Expr} (he : S e) :
    (w.holding p).fresh shown e = (w'.holding p).fresh shown e := by
  have hboth := h.together_closed (p := p) hclosed havoids
    (List.Sublist.refl w.definitions) shown he
  rw [← h.definitions] at hboth
  exact (hboth [] [] rfl).1

end

/-! ## Shared calls -/

/-- What a world evaluates apart from a declaration: the expressions of its
rules, and the indicator calls that the declaration does not read. -/
def Apart (w w' : World) (d root : Expr) : Prop :=
  RuleStates w.strategy root ∨
    (root ∈ w.strategy.indicators ∧ ¬Reads w' true d root)

/-- An indicator call that the declaration reads where the variable is defined,
and that is read apart from it where the variable is pinned. -/
structure Shared (w w' : World) (d call : Expr) : Prop where
  indicator : call.isIndicatorCall = true
  declared : Reads w' true d call
  apart : ∃ root, Apart w w' d root ∧ Reads w true root call

/-- What shared calls read. -/
def SharedReads (w w' : World) (d e : Expr) : Prop :=
  ∃ call, Shared w w' d call ∧ Reads w' true call e

section

variable {w w' : World} {x : String} {v : Value} {d : Expr}

theorem SharedReads.declared {e : Expr} (h : SharedReads w w' d e) :
    Reads w' true d e := by
  obtain ⟨call, hshared, hreads⟩ := h
  exact hshared.declared.trans hreads

/-- If the shared calls can be kept, so can all that they read. -/
theorem lasting_shared (hw' : Identified w'.strategy)
    (hd : w'.strategy.States d)
    (hkeep : ∀ call, Shared w w' d call → w'.Keepable call) :
    Lasting w' (SharedReads w w' d) := by
  refine .of_closed hw' ?_ ?_ ?_ ?_
  · rintro e ⟨call, hshared, hreads⟩
    exact (hkeep call hshared).unlooped e hreads
  · rintro e f ⟨call, hshared, hreads⟩ hpart
    exact ⟨call, hshared, hreads.tail hpart⟩
  · intro e he
    exact indicatorCalls_of_reads hw'.listed (hw'.listed d hd) he.declared
  · rintro id name args hname ⟨call, hshared, hreads⟩
    exact (hkeep call hshared).positionFree id name args hname hreads

theorem Pinned.indicators (h : Pinned w w' x v d) :
    w'.strategy.indicators = w.strategy.indicators := by
  obtain ⟨inputs, hdefine, -⟩ := define_eq w.strategy x d
  rw [h.strategy, hdefine]

/-- What lasts where the variable is defined lasts where it is pinned. -/
theorem Pinned.lasting (h : Pinned w w' x v d) {S : Expr → Prop}
    (hlasting : Lasting w' S) : Lasting w S where
  regular :=
    { acyclic := fun e he hloops =>
        hlasting.regular.acyclic e he (h.loops hloops)
      closed := fun he hpart => hlasting.regular.closed he (h.part hpart)
      identified := hlasting.regular.identified }
  positionFree id name args hname hcall a ha f hf hposition := by
    obtain ⟨hread, hset⟩ := hposition
    rw [h.set, Bool.or_eq_false_iff] at hset
    exact hlasting.positionFree id name args hname hcall a ha f (h.reads hf)
      ⟨hread, hset.2⟩
  listed hname hcall := by
    rw [← h.indicators]
    exact hlasting.listed hname hcall

/-- No shared call reads the variable, because then it would reach itself. -/
theorem avoids_shared (hlasting : Lasting w' (SharedReads w w' d)) {e : Expr}
    (he : SharedReads w w' d e) {name : String}
    (hname : nameRead? e = some name) : w'.entered? name ≠ some d := by
  intro hentered
  exact hlasting.regular.acyclic e he ⟨name, d, hname, hentered, e, name,
    he.declared, hname, Option.isSome_of_eq_some hentered, rfl⟩

end

/-! ## Caches -/

/-- The expression reads an indicator call with the identity. -/
def ReadsCall (w : World) (e : Expr) (id : Nat) : Prop :=
  ∃ name args, isIndicatorName name = true ∧ Reads w true e (.call id name args)

/-- The caches agree on all calls that the declaration does not read, and hold
of the calls in a set what these are when nothing was evaluated before. -/
structure CachesMatch (w w' : World) (d : Expr) (S : Expr → Prop)
    (c c' : Cache) : Prop where
  lookup : ∀ id, ¬ReadsCall w' d id → c.lookup id = c'.lookup id
  left : Faithful w S c
  right : Faithful w' S c'

theorem CachesMatch.empty (w w' : World) (d : Expr) (S : Expr → Prop) :
    CachesMatch w w' d S [] [] where
  lookup _ _ := rfl
  left := .empty _ _
  right := .empty _ _

/-- Evaluation writes the values of calls that it reads, and of no other. -/
theorem lookup_evaluate {w : World} {S : Expr → Prop}
    (hS : ∀ {e f : Expr}, S e → Part w.entered? true e f → S f) {id : Nat}
    (hid : ∀ name args, isIndicatorName name = true →
      ¬S (.call id name args)) (p : Position) {available : Definitions}
    (hsub : available.Sublist w.definitions) (shown : Nat) {e : Expr}
    (he : S e) (c : Cache) :
    (evaluate (w.holding p) available shown e c).2.lookup id =
      c.lookup id := by
  have hkept : KeptByCalls (.closed w S hS) p fun cache =>
      cache.lookup id = c.lookup id := by
    intro available key name args hname hcall shown cache hcache hargs
    cases hlookup : cache.lookup key with
    | some u =>
        rw [evaluate_hit hname hlookup]
        exact hcache
    | none =>
        have hne : id ≠ key := by
          rintro rfl
          exact hid name args hname hcall.2
        rw [evaluate_miss hname hlookup, List.lookup_cons,
          beq_false_of_ne hne]
        exact hargs
  exact Scope.keeps hkept shown e ⟨hsub, he⟩ c rfl

section

variable {w w' : World} {x : String} {v : Value} {d : Expr} {p : Position}
  {S : Expr → Prop} {c c' : Cache}

/-- In other positions the caches match, too. -/
theorem CachesMatch.holding (h : Pinned w w' x v d) (hlasting : Lasting w' S)
    {p p' : Position}
    (hc : CachesMatch (w.holding p) (w'.holding p') d S c c')
    (q q' : Position) : CachesMatch (w.holding q) (w'.holding q') d S c c' where
  lookup := hc.lookup
  left := Faithful.holding (h.lasting hlasting).regular
    (h.lasting hlasting).positionFree hc.left q
  right := Faithful.holding hlasting.regular hlasting.positionFree hc.right q'

end

/-! ## Both worlds side by side -/

section

variable {w w' : World} {x : String} {v : Value} {d : Expr}

/-- What is evaluated apart from the declaration is stated. -/
theorem Apart.states {root : Expr} (h : Apart w w' d root) :
    w.strategy.States root := by
  rcases h with h | ⟨h, -⟩
  · exact h.states
  · exact .indicator h

/-- The setting of two worlds: the variable is pinned in the first one, both
list their indicator calls, and the shared calls can be kept. -/
structure Overridden (w w' : World) (x : String) (v : Value) (d : Expr) :
    Prop where
  pinned : Pinned w w' x v d
  identified : Identified w.strategy
  identified' : Identified w'.strategy
  keepable : ∀ call, Shared w w' d call → w'.Keepable call
  /-- The definition has the value in every evaluation. -/
  value : ∀ p available shown c,
    (evaluate (w'.holding p) available shown d c).1 = v

theorem Overridden.states (h : Overridden w w' x v d) :
    w'.strategy.States d :=
  .definition (by rw [h.pinned.getElem?, if_pos rfl])

theorem Overridden.lasting (h : Overridden w w' x v d) :
    Lasting w' (SharedReads w w' d) :=
  lasting_shared h.identified' h.states h.keepable

/-- What the declaration reads has listed indicator calls. -/
theorem Overridden.listed (h : Overridden w w' x v d) {e : Expr}
    (hread : Reads w' true d e) :
    e.indicatorCalls ⊆ w'.strategy.indicators :=
  indicatorCalls_of_reads h.identified'.listed
    (h.identified'.listed d h.states) hread

section

variable {p : Position} {c c' : Cache} {available : Definitions} {e : Expr}

/-- The caches still match when something that the declaration reads was
evaluated in the first world. -/
theorem Overridden.left_after (h : Overridden w w' x v d)
    (hc : CachesMatch (w.holding p) (w'.holding p) d (SharedReads w w' d) c c')
    (hread : Reads w' true d e) (hinside : Inside w available e) (shown : Nat) :
    CachesMatch (w.holding p) (w'.holding p) d (SharedReads w w' d)
      (evaluate (w.holding p) available shown e c).2 c' where
  lookup id hid := by
    rw [← hc.lookup id hid]
    exact lookup_evaluate (S := Reads w' true d)
      (fun he hpart => he.tail (h.pinned.part hpart))
      (fun name args hname hcall => hid ⟨name, args, hname, hcall⟩) p
      hinside.sublist shown hread c
  left := by
    have hcalls := h.listed hread
    rw [h.pinned.indicators] at hcalls
    exact Scope.keeps
      (keptByCalls_faithful h.identified (h.pinned.lasting h.lasting)) shown e
      ⟨hinside, h.identified.compatible hcalls⟩ c hc.left
  right := hc.right

/-- They still match when it was evaluated in the second world. -/
theorem Overridden.right_after (h : Overridden w w' x v d)
    (hc : CachesMatch (w.holding p) (w'.holding p) d (SharedReads w w' d) c c')
    (hread : Reads w' true d e) (hinside : Inside w' available e)
    (shown : Nat) :
    CachesMatch (w.holding p) (w'.holding p) d (SharedReads w w' d) c
      (evaluate (w'.holding p) available shown e c').2 where
  lookup id hid := by
    rw [hc.lookup id hid]
    exact (lookup_evaluate (S := Reads w' true d)
      (fun he hpart => he.tail hpart)
      (fun name args hname hcall => hid ⟨name, args, hname, hcall⟩) p
      hinside.sublist shown hread c').symm
  left := hc.left
  right := Scope.keeps (keptByCalls_faithful h.identified' h.lasting) shown e
    ⟨hinside, h.identified'.compatible (h.listed hread)⟩ c' hc.right

end

/-- Where the variable is read the second world finds the value. -/
theorem Overridden.atVariable (h : Overridden w w' x v d) (p : Position) :
    AlikeAtVariable w' x v d (.of w (Apart w w' d)) p
      (CachesMatch (w.holding p) (w'.holding p) d (SharedReads w w' d)) := by
  intro available e name hread hname hvariable hentered shown c c' hc
  obtain ⟨old, left, hx⟩ := h.pinned.release?_self hread
  have hreleased := release?_redefine x d x available
  rw [hx, Option.map_some, if_pos rfl] at hreleased
  have hinside : Inside w' (redefine x d left) d := by
    refine (h.pinned.inside hread).definition hname hentered ?_
    rw [h.pinned.variableOf_eq, hvariable]
    exact hreleased
  rw [readDefined_entered (w := w'.holding p) h.pinned.unfixed hreleased]
  exact ⟨(h.value p _ shown c').symm, h.right_after hc .refl hinside shown⟩

/-- Indicator calls that are read apart from the declaration have one value. -/
theorem Overridden.atCalls (h : Overridden w w' x v d) (p : Position) :
    AlikeAtCalls w' x d (.of w (Apart w w' d)) p
      (CachesMatch (w.holding p) (w'.holding p) d (SharedReads w w' d)) := by
  intro available id name args hname hread hargs shown
  by_cases hdeclared : ReadsCall w' d id
  · -- The declaration reads the call, too, so its value can be kept.
    obtain ⟨name', args', hname', hreads'⟩ := hdeclared
    obtain ⟨root, hroot, hreads⟩ := ReadWith.reads hread
    have hlisted := indicatorCalls_of_reads h.identified.listed
      (h.identified.listed root hroot.states) hreads
      (mem_indicatorCalls_self hname)
    rw [← h.pinned.indicators] at hlisted
    have hsame := h.identified'.distinct _
      (h.listed hreads' (mem_indicatorCalls_self hname')) _ hlisted rfl
    rw [hsame] at hreads'
    have hshared : SharedReads w w' d (.call id name args) :=
      ⟨.call id name args, ⟨hname, hreads', root, hroot, hreads⟩, .refl⟩
    have hlasting := h.lasting
    have hunlooped : ∀ f, Reads w' true (.call id name args) f →
        ¬w'.Loops f := fun f hf => hlasting.regular.acyclic f
      (Reads.within (fun _ _ he => hlasting.regular.closed he) hshared hf)
    intro c c' hc
    obtain ⟨hleft, -⟩ := evaluate_eq_fresh
      (h.pinned.lasting hlasting).regular hshared
      (hread.inside.holds fun f hf hloops =>
        hunlooped f (h.pinned.reads hf) (h.pinned.loops hloops))
      p shown hc.left
    obtain ⟨hright, -⟩ := evaluate_eq_fresh hlasting.regular hshared
      ((h.pinned.inside hread).holds hunlooped) p shown hc.right
    have hfresh := h.pinned.fresh_eq hlasting.regular.closed
      (avoids_shared hlasting) p shown hshared
    refine ⟨hleft.trans (hfresh.trans hright.symm), ?_⟩
    exact h.right_after (h.left_after hc hreads' hread.inside shown) hreads'
      (h.pinned.inside hread) shown
  · refine h.pinned.together_call hname hargs ?_ ?_ shown
    · intro c c' hc
      exact hc.lookup id hdeclared
    · -- What the declaration does not read is not shared.
      have hforeign : ∀ name args, isIndicatorName name = true →
          ¬SharedReads w w' d (.call id name args) :=
        fun name args hname hcall =>
          hdeclared ⟨name, args, hname, hcall.declared⟩
      intro c c' u hc
      refine ⟨fun key hkey => ?_, hc.left.foreign hforeign u,
        hc.right.foreign hforeign u⟩
      rw [List.lookup_cons, List.lookup_cons, hc.lookup key hkey]

/-- What is evaluated apart from the declaration has one value. -/
theorem Overridden.together (h : Overridden w w' x v d) (p : Position)
    {root : Expr} (hroot : Apart w w' d root) (shown : Nat) :
    Together (CachesMatch w w' d (SharedReads w w' d)) Eq
      ((w.holding p).valueOn shown root)
      ((w'.holding p).valueOn shown root) := by
  have hboth := h.pinned.together (h.atCalls p) (h.atVariable p) shown root
    (.root hroot)
  rw [← h.pinned.definitions] at hboth
  intro c c' hc
  have hthere : CachesMatch (w.holding w.position) (w'.holding w'.position) d
      (SharedReads w w' d) c c' := hc
  obtain ⟨hvalue, hafter⟩ := hboth c c' (hthere.holding h.pinned h.lasting p p)
  exact ⟨hvalue, hafter.holding h.pinned h.lasting w.position w'.position⟩

/-- **The worlds answer alike**, if no definition of the variable looks more at
the view than the other. -/
theorem Overridden.alike (h : Overridden w w' x v d) {old : Expr}
    (hold : w.strategy.definitions[x]? = some old)
    (hview : readsView d = readsView old)
    (hnames : namesInView d = namesInView old) :
    Alike w w' (CachesMatch w w' d (SharedReads w w' d)) := by
  obtain ⟨inputs, hdefine, -⟩ := define_eq w.strategy x d
  have hstrategy := h.pinned.strategy.trans hdefine
  constructor
  case symbol => rw [h.pinned.world]
  case bars => exact h.pinned.bars
  case position => rw [h.pinned.world]
  case indicators => exact h.pinned.indicators
  case entries => rw [hstrategy]
  case exits => rw [hstrategy]
  case view =>
    intro e _
    exact h.pinned.dependsOnView_eq hold hview hnames e
  case values =>
    intro p shown e _ he
    exact h.together p (Or.inl he) shown
  case calls =>
    intro p e he
    unfold World.value
    have hlength : (w'.holding p).bars.length = w.bars.length :=
      congrArg List.length h.pinned.bars
    rw [hlength]
    intro c c' hc
    by_cases hdeclared : Reads w' true d e
    · have hthere : CachesMatch (w.holding w.position)
          (w'.holding w'.position) d (SharedReads w w' d) c c' := hc
      have hafter := h.right_after
        (h.left_after (hthere.holding h.pinned h.lasting p p) hdeclared
          (.all w e) w.bars.length)
        hdeclared (.all w' e) w.bars.length
      exact ⟨trivial,
        hafter.holding h.pinned h.lasting w.position w'.position⟩
    · exact ⟨trivial,
        (h.together p (Or.inr ⟨he, hdeclared⟩) w.bars.length c c' hc).2⟩

end

end Barscript.Session

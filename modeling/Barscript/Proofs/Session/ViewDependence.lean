import Barscript.Proofs.Session.Literals
import Barscript.Proofs.Session.Sound

/-!
# Guards that do not depend on the view

`dependsOnView` searches the definitions that an expression reaches. Where the
search finds nothing, nothing that the expression reads is a ternary, a
computed offset or the mark of the newest bar (`readsView_of_reads`), so its
value at a bar is the same over all bars and over the bars up to that one.
That is, unless a column is given to `nz` as the replacement: it is read at
the newest bar in view, and the search does not look for it.
-/

namespace Barscript.Session

open Barscript.Script Barscript.Series Barscript.Builtin Barscript.Market
open Barscript.Trading

/-! ## The search -/

/-- The definitions that a search has left over when it finds nothing: those
that it entered do not themselves depend on the view, and neither they nor the
names it started from mention any that is left. -/
structure Unreached (s : Strategy) (all : Definitions)
    (names : List String) (left : Definitions) : Prop where
  sublist : left.Sublist all
  start : ∀ name ∈ names, variableOf s name ∉ left.map Prod.fst
  entered : ∀ key e, (key, e) ∈ all → key ∉ left.map Prod.fst →
    readsView e = false ∧
      ∀ name ∈ namesInView e, variableOf s name ∉ left.map Prod.fst

theorem exists_unreached (s : Strategy) (all : Definitions)
    (names : List String) (hall : (all.map Prod.fst).Nodup)
    (h : reachesView s all names = false) :
    ∃ left, Unreached s all names left := by
  fun_induction reachesView s all names with
  | case1 all =>
      refine ⟨all, List.Sublist.refl _, ?_, ?_⟩
      · intro name hname
        cases hname
      · intro key e hmem hnot
        exact absurd (List.mem_map_of_mem hmem) hnot
  | case2 all name rest hnone ih =>
      -- A name without a definition that is left leads nowhere.
      obtain ⟨left, hleft⟩ := ih hall h
      refine ⟨left, hleft.sublist, ?_, hleft.entered⟩
      intro other hother
      rcases List.mem_cons.mp hother with rfl | htail
      · intro hin
        exact release?_eq_none hnone
          ((hleft.sublist.map Prod.fst).subset hin)
      · exact hleft.start other htail
  | case3 all name rest value behind hsome ih =>
      -- The definition joins the entered ones, and its names are searched.
      obtain ⟨hvalue, hrest⟩ := Bool.or_eq_false_iff.mp h
      obtain ⟨hnodup, hname, hkeys⟩ := nodup_release? hsome hall
      obtain ⟨left, hleft⟩ := ih hnodup hrest
      have hsub := (release?_sublist hsome).2
      refine ⟨left, hleft.sublist.trans hsub, ?_, ?_⟩
      · intro other hother
        rcases List.mem_cons.mp hother with rfl | htail
        · intro hin
          exact hname ((hleft.sublist.map Prod.fst).subset hin)
        · exact hleft.start other (List.mem_append_right _ htail)
      · intro key e hmem hnot
        rcases hkeys key e hmem with ⟨_, rfl⟩ | hbehind
        · exact ⟨hvalue, fun other hother =>
            hleft.start other (List.mem_append_left _ hother)⟩
        · exact hleft.entered key e hbehind hnot

/-! ## What is read -/

theorem argumentsReadView_eq {args : List (Argument Expr)}
    (h : argumentsReadView args = false) {a : Argument Expr} (ha : a ∈ args) :
    readsView a.value = false := by
  induction args with
  | nil => cases ha
  | cons first rest ih =>
      obtain ⟨name, value⟩ := first
      obtain ⟨hfirst, hrest⟩ := Bool.or_eq_false_iff.mp h
      rcases List.mem_cons.mp ha with rfl | htail
      · exact hfirst
      · exact ih hrest htail

theorem mem_argumentNamesInView {args : List (Argument Expr)}
    {a : Argument Expr} (ha : a ∈ args) {name : String}
    (hname : name ∈ namesInView a.value) :
    name ∈ argumentNamesInView args := by
  induction args with
  | nil => cases ha
  | cons first rest ih =>
      obtain ⟨label, value⟩ := first
      rcases List.mem_cons.mp ha with rfl | htail
      · exact List.mem_append_left _ hname
      · exact List.mem_append_right _ (ih htail)

theorem mem_namesInView_of_nameRead? {e : Expr} {name : String}
    (h : nameRead? e = some name) : name ∈ namesInView e := by
  cases e with
  | ref _ =>
      cases h
      exact List.mem_cons_self
  | indexed _ _ =>
      cases h
      exact List.mem_cons_self
  | _ => cases h

/-- Nothing that such an expression reads depends on the view itself, nor does
it mention a definition that was not searched. -/
theorem Unreached.part {w : World} {names : List String} {left : Definitions}
    (h : Unreached w.strategy w.definitions names left) {e f : Expr}
    (hview : readsView e = false)
    (hnames : ∀ name ∈ namesInView e,
      variableOf w.strategy name ∉ left.map Prod.fst)
    (hpart : Part w.entered? false e f) :
    readsView f = false ∧ ∀ name ∈ namesInView f,
      variableOf w.strategy name ∉ left.map Prod.fst := by
  cases hpart with
  | @definition _ _ name hname hdef =>
      have hmem : (variableOf w.strategy name, f) ∈ w.definitions :=
        Std.ExtTreeMap.mem_toList_iff_getElem?_eq_some.mpr
          (getElem?_of_entered? hdef)
      exact h.entered _ f hmem
        (hnames name (mem_namesInView_of_nameRead? hname))
  | @offset name _ =>
      cases f with
      | literal value =>
          exact ⟨rfl, fun name hname => absurd hname List.not_mem_nil⟩
      | _ => cases hview
  | @argument id name args a hinto ha =>
      have hname : isIndicatorName name = false := by
        rcases hinto with hinto | hname
        · cases hinto
        · exact hname
      have hargs : argumentsReadView args = false := by
        simp only [readsView, hname, Bool.not_false, Bool.true_and] at hview
        exact hview
      refine ⟨argumentsReadView_eq hargs ha, ?_⟩
      intro other hother
      refine hnames other ?_
      simp only [namesInView, hname, Bool.false_eq_true, if_false]
      exact mem_argumentNamesInView ha hother
  | left =>
      refine ⟨(Bool.or_eq_false_iff.mp hview).1, fun name hname => ?_⟩
      exact hnames name (List.mem_append_left _ hname)
  | right =>
      refine ⟨(Bool.or_eq_false_iff.mp hview).2, fun name hname => ?_⟩
      exact hnames name (List.mem_append_right _ hname)
  | operand => exact ⟨hview, hnames⟩
  | condition => cases hview
  | whenTrue => cases hview
  | whenFalse => cases hview

/-- The search is sound: nothing that is read depends on the view itself. -/
theorem readsView_of_reads {w : World} {g f : Expr}
    (h : dependsOnView w.strategy g = false) (hreads : Reads w false g f) :
    readsView f = false := by
  obtain ⟨hview, hsearch⟩ := Bool.or_eq_false_iff.mp h
  obtain ⟨left, hleft⟩ := exists_unreached w.strategy w.definitions _
    (nodup_definitions w) hsearch
  have hboth : readsView f = false ∧ ∀ name ∈ namesInView f,
      variableOf w.strategy name ∉ left.map Prod.fst := by
    induction hreads with
    | refl => exact ⟨hview, hleft.start⟩
    | tail _ hpart ih => exact hleft.part ih.1 ih.2 hpart
  exact hboth.1

/-- The expression itself is no ternary, no mark of the newest bar and no
computed offset. -/
def Settled : Expr → Prop
  | .ref name => name ≠ newestBarName
  | .ternary _ _ _ => False
  | .indexed name offset =>
    name ≠ newestBarName ∧ offset.literal?.isSome = true
  | _ => True

theorem settled_of_readsView {e : Expr} (h : readsView e = false) :
    Settled e := by
  cases e with
  | ref name =>
      show name ≠ newestBarName
      rintro rfl
      cases h
  | ternary _ _ _ => cases h
  | indexed name offset =>
      obtain ⟨hoffset, hname⟩ := Bool.or_eq_false_iff.mp h
      constructor
      · rintro rfl
        cases hname
      · cases offset with
        | literal value => rfl
        | _ => cases hoffset
  | _ => exact trivial

/-! ## Guards over all bars and in a view -/

/-- No replacement that an expression gives to `nz` is a column, whatever
evaluations left in the cache. -/
def PlainReplacements (w : World) (scope : Scope w) (first : Cache)
    (e : Expr) : Prop :=
  ∀ id args, Reads w false e (.call id "nz" args) →
    ∀ shown, NumbersSteady w scope first shown id "nz" args

/-- Besides indicators only `nz` reads one number. -/
theorem numberSlots_eq_nil {name : String}
    (h : isIndicatorName name = false) (hne : name ≠ "nz")
    (args : Arguments) : numberSlots name args = [] := by
  unfold numberSlots
  split
  · exact absurd rfl hne
  all_goals first | rfl | exact Bool.noConfusion h

section

variable {w : World} {scope : Scope w} {first : Cache} {g : Expr}

/-- Such an expression does not look at the newest bar, if `nz` is given no
column as the replacement. -/
theorem viewFree_of_settled {f : Expr} (h : Settled f)
    (hnz : ∀ id args, f = .call id "nz" args →
      ∀ shown, NumbersSteady w scope first shown id "nz" args) :
    ViewFree w scope first f := by
  cases f with
  | literal _ => exact trivial
  | ref name => exact h
  | call id name args =>
      intro hname
      by_cases hne : name = "nz"
      · subst hne
        exact hnz id args rfl
      · intro shown c _ p available _ slot hslot
        rw [numberSlots_eq_nil hname hne] at hslot
        cases hslot
  | binary _ _ _ => exact trivial
  | unary _ _ => exact trivial
  | ternary _ _ _ => exact h.elim
  | indexed name offset =>
      refine ⟨h.1, ?_⟩
      cases offset with
      | literal value =>
          intro c _ p available _ shown
          rw [evaluate]
          cases value <;> rfl
      | _ => exact Bool.noConfusion h.2

theorem allViewFree_of_dependsOnView (h : dependsOnView w.strategy g = false)
    (hnz : PlainReplacements w scope first g) :
    AllViewFree w scope first g := by
  intro f hf
  refine viewFree_of_settled (settled_of_readsView (readsView_of_reads h hf))
    ?_
  rintro id args rfl
  exact hnz id args hf

end

/-- **Reading a guard at a bar of all bars and evaluating it over the bars up
to that one agree**, in every state that a session can reach, when the guard
does not depend on the view and gives no column to `nz` as the replacement. -/
theorem truthyAt_value_eq_isTruthy_valueOn {strategy : Strategy}
    {symbol : String} {s : Session} (hs : Reached strategy symbol s)
    {g : Expr} (hview : dependsOnView s.strategy g = false)
    (hnz : PlainReplacements s.toWorld (.of s.toWorld (· = g)) s.cache g)
    {i : Nat} (hi : i < s.bars.length) :
    (s.run fun w => w.value g).1.truthyAt i =
      (s.run fun w => w.valueOn (i + 1) g).1.isTruthy := by
  have hsound := sound_of_reached hs
  have hviews : Views s.bars.length s.bars.length (i + 1) s.bars.length :=
    ⟨Nat.le_refl _, hi, Nat.le_refl _, hi⟩
  have hcomparable : Comparable s.toWorld (.of s.toWorld (· = g)) s.cache
      s.bars.length (i + 1) s.bars.length s.definitions g :=
    ⟨.root rfl, Or.inr (allViewFree_of_dependsOnView hview hnz), Or.inl rfl⟩
  have htogether := together_evaluate hsound.overrides s.position hviews g
    hcomparable s.cache s.cache (hsound.cache.cachesBegin _)
  have hall : (s.toWorld.holding s.position).upTo s.bars.length =
      s.toWorld := upTo_length s.toWorld
  rw [hall] at htogether
  exact htogether.1.isTruthy_eq.symm

/-- A session over two bars that close at 5 and 20 and trade no volume. -/
def twoBars : Session :=
  (start .empty "").loadBars
    [⟨⟨0, 0⟩, 5.0, 5.0, 5.0, 5.0, 0.0⟩,
      ⟨⟨60, 0⟩, 20.0, 20.0, 20.0, 20.0, 0.0⟩]

/-- The quotient of the volume by itself, with a replacement. -/
def filledVolume (replacement : Expr) : Expr :=
  .call 0 "nz" [⟨none, .binary .div (.ref "volume") (.ref "volume")⟩,
    ⟨none, replacement⟩]

theorem plainReplacements_filledVolume (w : World) (first : Cache)
    (value : Literal) :
    PlainReplacements w (.of w (· = filledVolume (.literal value))) first
      (filledVolume (.literal value)) := by
  intro id args hreads
  have hread := Reads.within (S := fun e =>
    e = filledVolume (.literal value) ∨
      e = .binary .div (.ref "volume") (.ref "volume") ∨
        isLeaf e = true) ?_ (Or.inl rfl) hreads
  · rcases hread with heq | heq | heq
    · cases heq
      intro shown
      apply numbersSteady_of
      intro c _ p available _ slot hslot e he
      obtain rfl : slot = replacementSlot := List.mem_singleton.mp hslot
      obtain rfl : .literal value = e := Option.some.inj he
      exact neverColumn_of_fromLiterals (.literal value)
    · cases heq
    · cases heq
  · rintro e f (rfl | rfl | he) hpart
    · cases hpart with
      | definition hname _ => cases hname
      | argument _ ha =>
          rcases List.mem_cons.mp ha with rfl | ha
          · exact Or.inr (Or.inl rfl)
          · obtain rfl := List.mem_singleton.mp ha
            exact Or.inr (Or.inr rfl)
    · cases hpart with
      | definition hname _ => cases hname
      | left => exact Or.inr (Or.inr rfl)
      | right => exact Or.inr (Or.inr rfl)
    · exact absurd hpart (not_part_of_isLeaf he)

theorem truthyAt_value_filledVolume :
    (twoBars.run fun w =>
      w.value (filledVolume (.literal (.number 1.0)))).1.truthyAt 0 =
    (twoBars.run fun w =>
      w.valueOn 1 (filledVolume (.literal (.number 1.0)))).1.isTruthy :=
  truthyAt_value_eq_isTruthy_valueOn (.loadBars .start _) (by decide +kernel)
    (plainReplacements_filledVolume _ _ _) (by decide)

/-- With a column as the replacement the two ways differ: over all bars it is
read at the last one, in the view of the first bar at that bar. -/
theorem truthyAt_value_ne_with_column :
    dependsOnView .empty
        (.binary .gt (filledVolume (.ref "close"))
          (.literal (.number 10.0))) = false ∧
      (twoBars.run fun w =>
        w.value (.binary .gt (filledVolume (.ref "close"))
          (.literal (.number 10.0)))).1.truthyAt 0 = true ∧
      (twoBars.run fun w =>
        w.valueOn 1 (.binary .gt (filledVolume (.ref "close"))
          (.literal (.number 10.0)))).1.isTruthy = false := by
  decide +kernel

end Barscript.Session

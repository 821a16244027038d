import Std.Data.String.ToNat
import Mathlib.Data.List.Forall2
import Mathlib.Data.List.Nodup
import Mathlib.Data.List.Pairwise
import Barscript.Proofs.Script.Declarations

/-!
# An entry for each input

A script declares an input by a call of an input function, under the variable
that the call is assigned to or under its title. A declaration with neither is
numbered by the inputs in front of it. No declaration is lost as long as these
numbers are free, and only then (`holdsEach_iff_numbersFree`): a variable or a
title may look like the number of an input, and of the two that then have one
name the later one replaces the earlier one (`numbered_replaces_stated`).
-/

namespace Barscript.Script

/-- A declaration of an input. -/
structure InputDeclaration where
  /-- The name that the script states: the variable or, without one, the
  title. -/
  stated? : Option String
  /-- The input function. -/
  function : String
  args : List (Argument Expr)

/-- The input that is declared. -/
def InputDeclaration.input (d : InputDeclaration) : Input :=
  .ofCall d.function d.args

/-- The declaration of an input that a statement is. -/
def Statement.inputDeclaration? : Statement → Option InputDeclaration
  | .assignment name (.call _ function args) =>
    if hasMark inputMark function then some ⟨some name, function, args⟩
    else none
  | .input function args =>
    some ⟨(Input.ofCall function args).title, function, args⟩
  | _ => none

/-- The declarations of inputs among some statements. -/
def inputDeclarations (all : List Statement) : List InputDeclaration :=
  all.filterMap Statement.inputDeclaration?

/-- The names that some declarations state. -/
def statedNames (ds : List InputDeclaration) : List String :=
  ds.filterMap InputDeclaration.stated?

/-- The name of an input that has a number only. -/
def numberedName (n : Nat) : String :=
  "input_" ++ toString n

/-- The number of no unnamed declaration is the name of another one. -/
def NumbersFree (ds : List InputDeclaration) : Prop :=
  ∀ p ∈ ds.zipIdx, p.1.stated? = none → numberedName p.2 ∉ statedNames ds

instance (ds : List InputDeclaration) : Decidable (NumbersFree ds) :=
  inferInstanceAs (Decidable (∀ p ∈ ds.zipIdx, _))

/-- The inputs are those of the declarations, one for each, and each one is
found under the name that its declaration states, if it states one. -/
def HoldsEach (inputs : Bindings Input) (ds : List InputDeclaration) : Prop :=
  ∃ names : List String,
    List.Forall₂ (fun d name => ∀ x, d.stated? = some x → name = x) ds names ∧
      inputs.toList.Perm (names.zip (ds.map InputDeclaration.input))

/-! ## A new name -/

section

variable {α : Type} {bindings : Bindings α} {name : String}

theorem nodup_toList (bindings : Bindings α) : bindings.toList.Nodup := by
  refine List.Nodup.of_map Prod.fst ?_
  rw [Std.ExtTreeMap.map_fst_toList_eq_keys]
  exact Std.ExtTreeMap.nodup_keys

/-- A new name adds one entry and leaves the others. -/
theorem toList_insert_name (h : name ∉ bindings) (value : α) :
    (bindings.insert name value).toList.Perm
      ((name, value) :: bindings.toList) := by
  have hnone : bindings[name]? = none := Std.ExtTreeMap.getElem?_eq_none h
  have hnew : (name, value) ∉ bindings.toList := fun hmem => by
    rw [Std.ExtTreeMap.mem_toList_iff_getElem?_eq_some, hnone] at hmem
    cases hmem
  refine (List.perm_ext_iff_of_nodup (nodup_toList _)
    (List.nodup_cons.mpr ⟨hnew, nodup_toList _⟩)).mpr fun (x, other) => ?_
  rw [List.mem_cons, Std.ExtTreeMap.mem_toList_iff_getElem?_eq_some,
    Std.ExtTreeMap.mem_toList_iff_getElem?_eq_some, getElem?_insert_name,
    Prod.mk.injEq]
  by_cases hx : x = name
  · rw [if_pos hx, hx, hnone]
    simp [eq_comm]
  · rw [if_neg hx]
    simp [hx]

end

/-! ## One declaration after another -/

/-- The name of a declaration behind `n` inputs. -/
def InputDeclaration.nameAt (d : InputDeclaration) (n : Nat) : String :=
  d.stated?.getD (numberedName n)

/-- The names of some declarations behind `n` inputs, if none of them
replaces an input. -/
def namesFrom (n : Nat) (ds : List InputDeclaration) : List String :=
  (ds.zipIdx n).map fun p => p.1.nameAt p.2

/-- The inputs with the one of a declaration. -/
def declare (inputs : Bindings Input) (d : InputDeclaration) :
    Bindings Input :=
  inputs.insert (d.nameAt inputs.size) d.input

/-- Some declarations have names of their own behind some inputs. -/
def Fresh (inputs : Bindings Input) (ds : List InputDeclaration) : Prop :=
  (namesFrom inputs.size ds).Nodup ∧
    ∀ name ∈ namesFrom inputs.size ds, name ∉ inputs

section

variable {inputs : Bindings Input} {d : InputDeclaration}
  {ds : List InputDeclaration} {n : Nat} {x : String}

/-- A statement changes the inputs by the one that it declares. -/
theorem inputs_add_eq (s : Strategy) (st : Statement) :
    (s.add st).inputs =
      st.inputDeclaration?.elim s.inputs (declare s.inputs) := by
  cases st with
  | version digits =>
      rw [Strategy.add]
      cases Decimal.readNat? digits.toList with
      | none => rfl
      | some version =>
          dsimp only
          split <;> rfl
  | assignment name value =>
      cases value with
      | call id function args =>
          simp only [Strategy.add, Strategy.define,
            Statement.inputDeclaration?]
          split <;> rfl
      | _ => rfl
  | order function args =>
      show (Strategy.withOrder _ function args).inputs = s.inputs
      unfold Strategy.withOrder
      split <;> rfl
  | _ => rfl

/-- Statements change the inputs by the ones that they declare. -/
theorem inputs_foldl_add (s : Strategy) (all : List Statement) :
    (all.foldl Strategy.add s).inputs =
      (inputDeclarations all).foldl declare s.inputs := by
  induction all generalizing s with
  | nil => rfl
  | cons st rest ih =>
      rw [List.foldl_cons, ih, inputs_add_eq]
      unfold inputDeclarations
      cases h : st.inputDeclaration? with
      | none => rw [List.filterMap_cons_none h, Option.elim_none]
      | some d => rw [List.filterMap_cons_some h, Option.elim_some,
          List.foldl_cons]

theorem namesFrom_cons :
    namesFrom n (d :: ds) = d.nameAt n :: namesFrom (n + 1) ds :=
  rfl

theorem nameAt_stated (h : d.stated? = some x) : d.nameAt n = x := by
  rw [InputDeclaration.nameAt, h, Option.getD_some]

theorem nameAt_unstated (h : d.stated? = none) :
    d.nameAt n = numberedName n := by
  rw [InputDeclaration.nameAt, h, Option.getD_none]

theorem mem_declare :
    x ∈ declare inputs d ↔ x = d.nameAt inputs.size ∨ x ∈ inputs := by
  rw [declare, Std.ExtTreeMap.mem_insert, Std.LawfulEqCmp.compare_eq_iff_eq,
    eq_comm]

theorem size_declare_of_mem (h : d.nameAt inputs.size ∈ inputs) :
    (declare inputs d).size = inputs.size := by
  rw [declare, Std.ExtTreeMap.size_insert,
    if_pos (Std.ExtTreeMap.contains_iff_mem.mpr h)]

theorem size_declare_of_notMem (h : d.nameAt inputs.size ∉ inputs) :
    (declare inputs d).size = inputs.size + 1 := by
  rw [declare, Std.ExtTreeMap.size_insert,
    if_neg fun hmem => h (Std.ExtTreeMap.contains_iff_mem.mp hmem)]

/-- Names of their own are taken one after another. -/
theorem fresh_cons :
    Fresh inputs (d :: ds) ↔
      d.nameAt inputs.size ∉ inputs ∧ Fresh (declare inputs d) ds := by
  unfold Fresh
  rw [namesFrom_cons, List.nodup_cons, List.forall_mem_cons]
  by_cases h : d.nameAt inputs.size ∈ inputs
  · simp [h]
  -- Behind a new name the next number is one higher, so the names that are
  -- left stay the same.
  · rw [size_declare_of_notMem h]
    constructor
    · rintro ⟨⟨hfirst, hrest⟩, -, hnew⟩
      refine ⟨h, hrest, fun x hx hmem => ?_⟩
      rcases mem_declare.mp hmem with rfl | hmem
      · exact hfirst hx
      · exact hnew x hx hmem
    · rintro ⟨-, hrest, hnew⟩
      refine ⟨⟨fun hmem => ?_, hrest⟩, h, fun x hx hmem => ?_⟩
      · exact hnew _ hmem (mem_declare.mpr (Or.inl rfl))
      · exact hnew x hx (mem_declare.mpr (Or.inr hmem))

theorem toList_declare (h : d.nameAt inputs.size ∉ inputs) :
    (declare inputs d).toList.Perm
      ((d.nameAt inputs.size, d.input) :: inputs.toList) :=
  toList_insert_name h d.input

/-- Declarations with names of their own add an entry each and leave the
others. -/
theorem toList_foldl_declare (h : Fresh inputs ds) :
    (ds.foldl declare inputs).toList.Perm
      (inputs.toList ++
        (namesFrom inputs.size ds).zip (ds.map InputDeclaration.input)) := by
  induction ds generalizing inputs with
  | nil => simp [namesFrom]
  | cons d rest ih =>
      obtain ⟨hnew, hrest⟩ := fresh_cons.mp h
      have hrun := ih hrest
      rw [size_declare_of_notMem hnew] at hrun
      rw [List.foldl_cons, namesFrom_cons, List.map_cons, List.zip_cons_cons]
      calc (rest.foldl declare (declare inputs d)).toList.Perm _ := hrun
        List.Perm _ _ := (toList_declare hnew).append_right _
        List.Perm _ _ := List.perm_middle.symm

/-- Declarations add at most one entry each. -/
theorem size_foldl_declare_le (inputs : Bindings Input)
    (ds : List InputDeclaration) :
    (ds.foldl declare inputs).size ≤ inputs.size + ds.length := by
  induction ds generalizing inputs with
  | nil => exact Nat.le_refl _
  | cons d rest ih =>
      have hrun := ih (declare inputs d)
      rw [List.foldl_cons, List.length_cons]
      by_cases h : d.nameAt inputs.size ∈ inputs
      · rw [size_declare_of_mem h] at hrun
        omega
      · rw [size_declare_of_notMem h] at hrun
        omega

/-- If they add one entry each, their names are their own. -/
theorem fresh_of_size
    (h : (ds.foldl declare inputs).size = inputs.size + ds.length) :
    Fresh inputs ds := by
  induction ds generalizing inputs with
  | nil => exact ⟨List.nodup_nil, fun _ hx => nomatch hx⟩
  | cons d rest ih =>
      rw [List.foldl_cons, List.length_cons] at h
      have hle := size_foldl_declare_le (declare inputs d) rest
      have hnew : d.nameAt inputs.size ∉ inputs := fun hmem => by
        rw [size_declare_of_mem hmem] at hle
        omega
      refine fresh_cons.mpr ⟨hnew, ih ?_⟩
      rw [h, size_declare_of_notMem hnew]
      omega

/-! ## Numbers and stated names -/

theorem numberedName_injective : Function.Injective numberedName := by
  intro m n h
  have htoList := congrArg String.toList h
  unfold numberedName at htoList
  rw [String.toList_append, String.toList_append] at htoList
  exact Nat.repr_injective
    (String.toList_injective (List.append_cancel_left htoList))

/-- Of the declarations that state different names, one alone states a given
name. -/
theorem eq_of_stated (h : (statedNames ds).Nodup)
    {p q : InputDeclaration × Nat} (hp : p ∈ ds.zipIdx) (hq : q ∈ ds.zipIdx)
    (hpx : p.1.stated? = some x) (hqx : q.1.stated? = some x) : p = q := by
  have hnames : statedNames ds = ds.zipIdx.filterMap (·.1.stated?) := by
    conv_lhs => rw [← List.zipIdx_map_fst 0 ds]
    exact List.filterMap_map
  rw [hnames, List.Nodup, List.pairwise_filterMap] at h
  have : Std.Symm fun p q : InputDeclaration × Nat => ∀ a,
      p.1.stated? = some a → ∀ b, q.1.stated? = some b → a ≠ b :=
    ⟨fun _ _ hab a ha b hb => (hab b hb a ha).symm⟩
  by_contra hne
  exact h.forall hp hq hne x hpx x hqx rfl

theorem mem_statedNames :
    x ∈ statedNames ds ↔ ∃ p ∈ ds.zipIdx, p.1.stated? = some x := by
  constructor
  · intro hmem
    obtain ⟨d, hd, hstated⟩ := List.mem_filterMap.mp hmem
    obtain ⟨k, hk⟩ := List.mem_iff_getElem?.mp hd
    exact ⟨(d, k), List.mem_zipIdx_iff_getElem?.mpr hk, hstated⟩
  · rintro ⟨p, hp, hstated⟩
    exact List.mem_filterMap.mpr
      ⟨p.1, List.fst_mem_of_mem_zipIdx hp, hstated⟩

/-- A free number is not the name that a declaration states. -/
theorem number_ne_of_stated (h : NumbersFree ds)
    {p q : InputDeclaration × Nat} (hp : p ∈ ds.zipIdx) (hq : q ∈ ds.zipIdx)
    (hnone : p.1.stated? = none) (hqx : q.1.stated? = some x) :
    numberedName p.2 ≠ x := by
  rintro rfl
  exact h p hp hnone (mem_statedNames.mpr ⟨q, hq, hqx⟩)

/-- If the stated names are different and the numbers free, no two
declarations have one name. -/
theorem eq_of_nameAt (h : (statedNames ds).Nodup) (hfree : NumbersFree ds)
    {p q : InputDeclaration × Nat} (hp : p ∈ ds.zipIdx) (hq : q ∈ ds.zipIdx)
    (hsame : p.1.nameAt p.2 = q.1.nameAt q.2) : p = q := by
  cases hpx : p.1.stated? with
  | some x =>
      rw [nameAt_stated hpx] at hsame
      cases hqx : q.1.stated? with
      | some y =>
          rw [nameAt_stated hqx] at hsame
          exact eq_of_stated h hp hq hpx (hsame ▸ hqx)
      | none =>
          rw [nameAt_unstated hqx] at hsame
          exact absurd hsame.symm (number_ne_of_stated hfree hq hp hqx hpx)
  | none =>
      rw [nameAt_unstated hpx] at hsame
      cases hqx : q.1.stated? with
      | some y =>
          rw [nameAt_stated hqx] at hsame
          exact absurd hsame (number_ne_of_stated hfree hp hq hpx hqx)
      | none =>
          rw [nameAt_unstated hqx] at hsame
          have hnumber : p.2 = q.2 := numberedName_injective hsame
          rw [List.mem_zipIdx_iff_getElem?] at hp hq
          rw [hnumber, hq] at hp
          exact Prod.ext (Option.some.inj hp).symm hnumber

/-- Different stated names and the numbers are different names if the numbers
are free, and only then. -/
theorem nodup_namesFrom_iff (h : (statedNames ds).Nodup) :
    (namesFrom 0 ds).Nodup ↔ NumbersFree ds := by
  constructor
  · intro hnames p hp hnone hmem
    obtain ⟨q, hq, hstated⟩ := mem_statedNames.mp hmem
    have hsame : p.1.nameAt p.2 = q.1.nameAt q.2 := by
      rw [nameAt_unstated hnone, nameAt_stated hstated]
    have heq := List.inj_on_of_nodup_map hnames hp hq hsame
    rw [heq, hstated] at hnone
    cases hnone
  · intro hfree
    have hpositions : ds.zipIdx.Nodup := by
      refine List.Nodup.of_map Prod.snd ?_
      rw [List.zipIdx_map_snd]
      exact List.nodup_range'
    exact hpositions.map_on fun p hp q hq hsame =>
      eq_of_nameAt h hfree hp hq hsame

theorem forall₂_namesFrom (n : Nat) (ds : List InputDeclaration) :
    List.Forall₂ (fun d name => ∀ x, d.stated? = some x → name = x) ds
      (namesFrom n ds) := by
  induction ds generalizing n with
  | nil => exact .nil
  | cons d rest ih =>
      exact .cons (fun x hx => nameAt_stated hx) (ih (n + 1))

end

/-! ## The whole script -/

section

variable {all : List Statement} {source : String} {s : Strategy}

theorem inputs_ofStatements (all : List Statement) :
    (Strategy.ofStatements all).inputs =
      (inputDeclarations all).foldl declare ∅ :=
  inputs_foldl_add .empty all

theorem fresh_empty_iff {ds : List InputDeclaration} :
    Fresh ∅ ds ↔ (namesFrom 0 ds).Nodup :=
  and_iff_left fun _ _ => Std.ExtTreeMap.not_mem_empty

/-- There are as many inputs as declarations if each one is held. -/
theorem HoldsEach.size {inputs : Bindings Input} {ds : List InputDeclaration}
    (h : HoldsEach inputs ds) : inputs.size = ds.length := by
  obtain ⟨names, hnames, hperm⟩ := h
  rw [← Std.ExtTreeMap.length_toList, hperm.length_eq, List.length_zip,
    List.length_map, ← hnames.length_eq, Nat.min_self]

/-- Where a number is not free, there are fewer inputs than declarations. -/
theorem size_inputs_lt (h : (statedNames (inputDeclarations all)).Nodup)
    (hfree : ¬ NumbersFree (inputDeclarations all)) :
    (Strategy.ofStatements all).inputs.size <
      (inputDeclarations all).length := by
  rw [inputs_ofStatements]
  have hle := size_foldl_declare_le ∅ (inputDeclarations all)
  rw [Std.ExtTreeMap.size_empty, Nat.zero_add] at hle
  refine Nat.lt_of_le_of_ne hle fun heq => hfree ?_
  rw [← nodup_namesFrom_iff h, ← fresh_empty_iff]
  refine fresh_of_size ?_
  rw [heq, Std.ExtTreeMap.size_empty, Nat.zero_add]

/-- **Every declaration of an input has its entry, if the numbers are free.**
In a script whose variables and titles of inputs are different names, the
inputs are those of the declarations, one for each, under the names that are
stated; unless the number of an unnamed declaration is such a name, and then it
is never so. -/
theorem holdsEach_iff_numbersFree (hparse : Strategy.parse source = .ok s)
    (hall : statementsOf source = .ok all)
    (hstated : (statedNames (inputDeclarations all)).Nodup) :
    HoldsEach s.inputs (inputDeclarations all) ↔
      NumbersFree (inputDeclarations all) := by
  have hs : s = .ofStatements all := by
    rw [Strategy.parse, hall] at hparse
    exact (Except.ok.inj hparse).symm
  subst hs
  constructor
  · intro hholds
    by_contra hfree
    exact absurd hholds.size (Nat.ne_of_lt (size_inputs_lt hstated hfree))
  · intro hfree
    have hfresh : Fresh ∅ (inputDeclarations all) :=
      fresh_empty_iff.mpr ((nodup_namesFrom_iff hstated).mpr hfree)
    have hperm := toList_foldl_declare hfresh
    rw [← inputs_ofStatements] at hperm
    exact ⟨_, forall₂_namesFrom _ _, hperm⟩

end

/-- What is computed from the statements of a source is said of a script that
parses. -/
theorem exists_parse {α : Type} {source : String} {f : List Statement → α}
    {value : α} (h : (statementsOf source).toOption.map f = some value) :
    ∃ all, Strategy.parse source = .ok (.ofStatements all) ∧
      statementsOf source = .ok all ∧ f all = value := by
  obtain ⟨all, hstatements, hvalue⟩ := exists_ok_of_map h
  refine ⟨all, ?_, hstatements, hvalue⟩
  rw [Strategy.parse, hstatements]

/-- Two inputs without a name, and two whose names look like the numbers of
other inputs. -/
def mixedInputs : String :=
  "input.bool(true)\ninput_2 = input.int(3, minval=1)\ninput(9, title=\"input_1\")\ninput.float(-1.5)"

/-- All four are held. -/
theorem holdsEach_iff_numbersFree_mixedInputs :
    ∃ s all, Strategy.parse mixedInputs = .ok s ∧
      statementsOf mixedInputs = .ok all ∧
      (inputDeclarations all).length = 4 ∧
      (statedNames (inputDeclarations all)).Nodup ∧
      NumbersFree (inputDeclarations all) ∧
      HoldsEach s.inputs (inputDeclarations all) := by
  have hshape : (statementsOf mixedInputs).toOption.map (fun all =>
      ((inputDeclarations all).length,
        decide (statedNames (inputDeclarations all)).Nodup,
        decide (NumbersFree (inputDeclarations all)))) =
      some (4, true, true) := by
    decide +kernel
  obtain ⟨all, hparse, hall, hvalues⟩ := exists_parse hshape
  simp only [Prod.mk.injEq, decide_eq_true_eq] at hvalues
  obtain ⟨hlength, hstated, hfree⟩ := hvalues
  exact ⟨_, all, hparse, hall, hlength, hstated, hfree,
    (holdsEach_iff_numbersFree hparse hall hstated).mpr hfree⟩

/-- An input with the title that is the number of the next one. -/
def takenNumber : String :=
  "input(5, title=\"input_1\")\ninput(9)"

/-- Of the two inputs the second one is left, under the title of the first. -/
theorem numbered_replaces_stated :
    ∃ s all, Strategy.parse takenNumber = .ok s ∧
      statementsOf takenNumber = .ok all ∧
      (statedNames (inputDeclarations all)).Nodup ∧
      (s.inputs["input_1"]?.bind Input.default).map Literal.render = some "9" ∧
      ¬ HoldsEach s.inputs (inputDeclarations all) := by
  have hshape : (statementsOf takenNumber).toOption.map (fun all =>
      ((inputDeclarations all).length, (Strategy.ofStatements all).inputs.size,
        decide (statedNames (inputDeclarations all)).Nodup,
        ((Strategy.ofStatements all).inputs["input_1"]?.bind
          Input.default).map Literal.render)) =
      some (2, 1, true, some "9") := by
    decide +kernel
  obtain ⟨all, hparse, hall, hvalues⟩ := exists_parse hshape
  simp only [Prod.mk.injEq, decide_eq_true_eq] at hvalues
  obtain ⟨hlength, hsize, hstated, hleft⟩ := hvalues
  refine ⟨_, all, hparse, hall, hstated, hleft, fun hholds => ?_⟩
  have hsame := hholds.size
  rw [hlength, hsize] at hsame
  cases hsame

end Barscript.Script

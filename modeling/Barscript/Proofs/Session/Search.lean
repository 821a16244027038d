import Barscript.Session.ViewDependence
import Barscript.Proofs.Session.Definitions

/-!
# The search that remembers what it visited

`dependsOnView` works through a list of names. The search can also go down the
expression itself, from left to right until something depends on the view,
enter a definition where a name stands for one, and remember the names it
visited. `searchWithin` is that search with a limit on the depth of its
recursion, and without an answer when the limit is met. Definitions in a circle
do not lead it to the limit, whatever was visited before, if the limit is
larger than the definitions not visited and the expression together; and its
answer is that of `dependsOnView`.
-/

namespace Barscript.Session

open Barscript.Script

/-! ## Definitions without some names -/

/-- The definitions of all names but some. -/
def unread (s : Strategy) (names : List String) : Definitions :=
  s.definitions.toList.filter fun entry => !names.contains entry.1

theorem unread_sublist (s : Strategy) (names : List String) :
    (unread s names).Sublist s.definitions.toList :=
  List.filter_sublist

theorem unread_nil (s : Strategy) : unread s [] = s.definitions.toList :=
  List.filter_eq_self.mpr fun _ _ => rfl

/-- Taking out the definition of a name leaves those of the other names. -/
theorem release?_eq_filter {name : String} {e : Expr} {all : Definitions}
    (hall : (all.map Prod.fst).Nodup) (h : (name, e) ∈ all) :
    release? name all =
      some (e, all.filter fun entry => entry.1 != name) := by
  induction all with
  | nil => cases h
  | cons entry rest ih =>
      obtain ⟨other, definition⟩ := entry
      obtain ⟨hother, hrest⟩ := List.nodup_cons.mp hall
      rw [release?, List.filter_cons]
      by_cases heq : other = name
      · subst heq
        have hkept : rest.filter (fun entry => entry.1 != other) = rest := by
          refine List.filter_eq_self.mpr ?_
          intro entry hentry
          rw [bne_iff_ne]
          intro hname
          have hkey : entry.1 ∈ rest.map Prod.fst :=
            List.mem_map_of_mem hentry
          rw [hname] at hkey
          exact hother hkey
        rcases List.mem_cons.mp h with hhead | htail
        · cases hhead
          rw [if_pos rfl, if_neg (by simp), hkept]
        · exact absurd (List.mem_map_of_mem htail) hother
      · have htail : (name, e) ∈ rest := by
          rcases List.mem_cons.mp h with hhead | htail
          · cases hhead
            exact absurd rfl heq
          · exact htail
        rw [if_neg heq, if_pos (bne_iff_ne.mpr heq), ih hrest htail]
        rfl

section

variable {s : Strategy} {name : String} {names names' : List String}
  {e : Expr}

theorem release?_unread (h : s.definitions[name]? = some e)
    (hname : name ∉ names) :
    release? name (unread s names) = some (e, unread s (name :: names)) := by
  have hmem : (name, e) ∈ unread s names := by
    refine List.mem_filter.mpr ⟨?_, ?_⟩
    · exact Std.ExtTreeMap.mem_toList_iff_getElem?_eq_some.mpr h
    · simpa using hname
  have hnodup : ((unread s names).map Prod.fst).Nodup :=
    (nodup_names s).sublist ((unread_sublist s names).map Prod.fst)
  rw [release?_eq_filter hnodup hmem, unread, unread, List.filter_filter]
  congr 3
  funext entry
  rw [List.contains_cons, Bool.not_or]
  rfl

theorem release?_unread_visited (hname : name ∈ names) :
    release? name (unread s names) = none := by
  cases hr : release? name (unread s names) with
  | none => rfl
  | some found =>
      have hmem := (List.mem_filter.mp (release?_sublist hr).1).2
      rw [List.contains_iff_mem.mpr hname] at hmem
      cases hmem

theorem weightDefinitions_sublist {left all : Definitions}
    (h : left.Sublist all) : weightDefinitions left ≤ weightDefinitions all := by
  induction h with
  | slnil => exact le_refl _
  | cons entry _ ih => exact le_trans ih (Nat.le_add_left _ _)
  | cons_cons entry _ ih => exact Nat.add_le_add_left ih _

/-- Every name that was visited makes less left to visit. -/
theorem weight_unread_le (h : names ⊆ names') :
    weightDefinitions (unread s names') ≤ weightDefinitions (unread s names) := by
  refine weightDefinitions_sublist (List.monotone_filter_right _ ?_)
  intro entry hentry
  rw [Bool.not_eq_true', List.contains_eq_mem, decide_eq_false_iff_not] at *
  exact fun hin => hentry (h hin)

theorem weight_unread (h : s.definitions[name]? = some e)
    (hname : name ∉ names) :
    weightDefinitions (unread s names) =
      weight e + 1 + weightDefinitions (unread s (name :: names)) :=
  weight_release? (release?_unread h hname)

end

theorem weight_lt_weightArguments {args : List (Argument Expr)}
    {arg : Argument Expr} (h : arg ∈ args) :
    weight arg.value < weightArguments args := by
  induction args with
  | nil => cases h
  | cons first rest ih =>
      rw [weightArguments]
      rcases List.mem_cons.mp h with rfl | htail
      · omega
      · have := ih htail
        omega

/-! ## The search -/

/-- A search knows the names it visited, and may give up. -/
abbrev Searching := StateT (List String) Option

/-- The second search takes place only if the first finds nothing. -/
def eitherOf (x y : Searching Bool) : Searching Bool := do
  if ← x then pure true else y

/-- What is found behind a name, once. -/
def onceFor (name : String) (x : Searching Bool) : Searching Bool := do
  if (← get).contains name then pure false
  else
    modify fun visited => name :: visited
    x

mutual

/-- Whether an expression depends on the view, searched no deeper than a
limit. -/
def searchWithin (s : Strategy) : Nat → Expr → Searching Bool
  | 0, _ => failure
  | depth + 1, e =>
    match e with
    | .literal _ => pure false
    | .ternary _ _ _ => pure true
    | .ref name => searchName s depth name
    | .indexed name offset =>
      if offset.literal?.isNone then pure true else searchName s depth name
    | .call _ name args =>
      if isIndicatorName name then pure false
      else args.foldr
        (fun arg rest => eitherOf (searchWithin s depth arg.value) rest)
        (pure false)
    | .binary _ left right =>
      eitherOf (searchWithin s depth left) (searchWithin s depth right)
    | .unary _ operand => searchWithin s depth operand

/-- Whether a name depends on the view. A definition is entered once. -/
def searchName (s : Strategy) : Nat → String → Searching Bool
  | 0, _ => failure
  | depth + 1, name =>
    if name == newestBarName then pure true
    else
      match s.definitions[variableOf s name]? with
      | none => pure false
      | some e => onceFor (variableOf s name) (searchWithin s depth e)

end

/-! ## Its answer -/

/-- From the names visited before, the search comes to an answer, and together
with what the names visited by then leave it answers for the expression whose
own dependence and names are given. -/
def Finds (s : Strategy) (reads : Bool) (names : List String)
    (x : Searching Bool) (visited : List String) : Prop :=
  ∃ found visited', x visited = some (found, visited') ∧
    visited ⊆ visited' ∧ ∀ rest,
      (reads || reachesView s (unread s visited) (names ++ rest)) =
        (found || reachesView s (unread s visited') rest)

section

variable {s : Strategy} {reads reads' : Bool} {names names' : List String}
  {x y : Searching Bool} {visited : List String}

theorem onceFor_visited {name : String} (h : name ∈ visited) :
    onceFor name x visited = (pure false : Searching Bool) visited := by
  show (if visited.contains name then (pure false : Searching Bool)
    else _) visited = _
  rw [if_pos (List.contains_iff_mem.mpr h)]

theorem onceFor_unvisited {name : String} (h : name ∉ visited) :
    onceFor name x visited = x (name :: visited) := by
  show (if visited.contains name then (pure false : Searching Bool)
    else _) visited = _
  rw [if_neg (mt List.contains_iff_mem.mp h)]
  rfl

theorem Finds.nothing : Finds s false [] (pure false) visited :=
  ⟨false, visited, rfl, List.Subset.refl _, fun _ => rfl⟩

theorem Finds.found (names : List String) :
    Finds s true names (pure true) visited :=
  ⟨true, visited, rfl, List.Subset.refl _, fun _ => rfl⟩

/-- Only what the search does from the visited names matters. -/
theorem Finds.congr (hrun : y visited = x visited)
    (h : Finds s reads names x visited) : Finds s reads names y visited := by
  unfold Finds
  rw [hrun]
  exact h

theorem Finds.either (h : Finds s reads names x visited)
    (h' : ∀ visited', visited ⊆ visited' → Finds s reads' names' y visited') :
    Finds s (reads || reads') (names ++ names') (eitherOf x y) visited := by
  obtain ⟨found, visited', hrun, hsub, heq⟩ := h
  have hbind : eitherOf x y visited =
      (if found then pure true else y : Searching Bool) visited' := by
    show (x visited).bind _ = _
    rw [hrun]
    rfl
  cases found with
  | true =>
      refine ⟨true, visited', hbind, hsub, ?_⟩
      intro rest
      have hfirst := heq (names' ++ rest)
      rw [Bool.or_assoc, Bool.or_left_comm, List.append_assoc, hfirst,
        Bool.true_or, Bool.or_true, Bool.true_or]
  | false =>
      obtain ⟨found', visited'', hrun', hsub', heq'⟩ := h' visited' hsub
      refine ⟨found', visited'', hbind.trans hrun', List.Subset.trans hsub hsub', ?_⟩
      intro rest
      rw [Bool.or_assoc, Bool.or_left_comm, List.append_assoc,
        heq (names' ++ rest), Bool.false_or, heq' rest]

theorem Finds.arguments {depth : Nat} (args : List (Argument Expr))
    (visited : List String)
    (h : ∀ arg ∈ args, ∀ visited', visited ⊆ visited' →
      Finds s (readsView arg.value) (namesInView arg.value)
        (searchWithin s depth arg.value) visited') :
    Finds s (argumentsReadView args) (argumentNamesInView args)
      (args.foldr (fun arg rest => eitherOf (searchWithin s depth arg.value) rest)
        (pure false)) visited := by
  induction args generalizing visited with
  | nil => exact .nothing
  | cons arg rest ih =>
      refine (h arg List.mem_cons_self visited (List.Subset.refl _)).either ?_
      intro visited' hsub
      refine ih visited' ?_
      intro other hother visited'' hsub'
      exact h other (List.mem_cons_of_mem arg hother) visited''
        (List.Subset.trans hsub hsub')

/-- Reading the name of a definition that was not visited. -/
theorem reachesView_enter {name : String} {e : Expr} {left : Definitions}
    {all : Definitions} (h : release? (variableOf s name) all = some (e, left))
    (rest : List String) :
    reachesView s all (name :: rest) =
      (readsView e || reachesView s left (namesInView e ++ rest)) := by
  rw [reachesView]
  split
  · rename_i hnone
    rw [h] at hnone
    cases hnone
  · rename_i hsome
    rw [h] at hsome
    cases hsome
    rfl

theorem reachesView_skip {name : String} {all : Definitions}
    (h : release? (variableOf s name) all = none) (rest : List String) :
    reachesView s all (name :: rest) = reachesView s all rest := by
  rw [reachesView]
  split
  · rfl
  · rename_i hsome
    rw [h] at hsome
    cases hsome

/-- Nothing is found at a name without a definition that is left. -/
theorem Finds.skip {name : String}
    (h : release? (variableOf s name) (unread s visited) = none) :
    Finds s false [name] (pure false) visited :=
  ⟨false, visited, rfl, List.Subset.refl _, reachesView_skip h⟩

/-- What is found at a name is what is found in its definition, if that was
not visited. -/
theorem Finds.enter {name : String} {e : Expr}
    (he : s.definitions[variableOf s name]? = some e)
    (h : variableOf s name ∉ visited →
      Finds s (readsView e) (namesInView e) x (variableOf s name :: visited)) :
    Finds s false [name] (onceFor (variableOf s name) x) visited := by
  by_cases hvisited : variableOf s name ∈ visited
  · exact Finds.congr (onceFor_visited hvisited)
      (.skip (release?_unread_visited hvisited))
  · obtain ⟨found, visited', hrun, hsub, heq⟩ := h hvisited
    refine ⟨found, visited', (onceFor_unvisited hvisited).trans hrun,
      (List.cons_subset.mp hsub).2, ?_⟩
    intro rest
    rw [Bool.false_or, List.singleton_append,
      reachesView_enter (release?_unread he hvisited), heq rest]

end

mutual

/-- Deep enough the search of an expression comes to its answer. The limit goes
down with every step, and what has to stay below it are the definitions that
were not visited together with the expression. -/
theorem finds_searchWithin (s : Strategy) (depth : Nat) (e : Expr)
    (visited : List String)
    (hdepth : weightDefinitions (unread s visited) + weight e < depth) :
    Finds s (readsView e) (namesInView e) (searchWithin s depth e) visited := by
  match depth, e with
  | 0, _ => omega
  | depth + 1, .literal _ =>
      rw [searchWithin]
      exact .nothing
  | depth + 1, .ternary _ _ _ =>
      rw [searchWithin]
      exact .found _
  | depth + 1, .ref name =>
      rw [weight] at hdepth
      rw [searchWithin]
      exact finds_searchName s depth name visited (by omega)
  | depth + 1, .indexed name offset =>
      rw [weight] at hdepth
      rw [searchWithin, readsView]
      cases hliteral : offset.literal?.isNone with
      | true => exact .found _
      | false => exact finds_searchName s depth name visited (by omega)
  | depth + 1, .unary _ operand =>
      rw [weight] at hdepth
      rw [searchWithin]
      exact finds_searchWithin s depth operand visited (by omega)
  | depth + 1, .binary _ left right =>
      rw [weight] at hdepth
      rw [searchWithin]
      refine (finds_searchWithin s depth left visited (by omega)).either ?_
      intro visited' hsub
      have hless := weight_unread_le (s := s) hsub
      exact finds_searchWithin s depth right visited' (by omega)
  | depth + 1, .call _ name args =>
      rw [weight] at hdepth
      rw [searchWithin, readsView, namesInView]
      cases hname : isIndicatorName name with
      | true => exact .nothing
      | false =>
          refine .arguments args visited ?_
          intro arg harg visited' hsub
          have hless := weight_unread_le (s := s) hsub
          have hpart := weight_lt_weightArguments harg
          exact finds_searchWithin s depth arg.value visited' (by omega)

theorem finds_searchName (s : Strategy) (depth : Nat) (name : String)
    (visited : List String)
    (hdepth : weightDefinitions (unread s visited) < depth) :
    Finds s (name == newestBarName) [name] (searchName s depth name)
      visited := by
  match depth with
  | 0 => omega
  | depth + 1 =>
      rw [searchName]
      cases hnewest : name == newestBarName with
      | true => exact .found _
      | false =>
          cases he : s.definitions[variableOf s name]? with
          | none => exact .skip (release?_undefined (unread_sublist s visited) he)
          | some e =>
              refine .enter he fun hvisited => ?_
              have hleft := weight_unread he hvisited
              exact finds_searchWithin s depth e _ (by omega)

end

/-- The answer of a search that starts without visited names. -/
theorem searchWithin_eq_dependsOnView (s : Strategy) (e : Expr) (extra : Nat) :
    ∃ visited, searchWithin s
        (weightDefinitions s.definitions.toList + weight e + 1 + extra) e [] =
      some (dependsOnView s e, visited) := by
  obtain ⟨found, visited, hrun, -, heq⟩ := finds_searchWithin s
    (weightDefinitions s.definitions.toList + weight e + 1 + extra) e []
    (by rw [unread_nil]; omega)
  refine ⟨visited, ?_⟩
  have hfound := heq []
  rw [List.append_nil, unread_nil, reachesView, Bool.or_false] at hfound
  rw [hrun, dependsOnView, hfound]

end Barscript.Session

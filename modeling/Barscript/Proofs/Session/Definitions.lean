import Mathlib.Data.List.Sublists
import Barscript.Session.Evaluation

/-!
# Definitions that are left

While a definition is read it is taken out of the definitions that may be
entered. What is taken out is one of them, and the others stay.
-/

namespace Barscript.Session

open Barscript.Script

theorem release?_sublist {name : String} {all left : Definitions}
    {value : Expr} (h : release? name all = some (value, left)) :
    (name, value) ∈ all ∧ left.Sublist all := by
  induction all generalizing left with
  | nil => cases h
  | cons entry rest ih =>
      obtain ⟨other, definition⟩ := entry
      unfold release? at h
      split at h
      · rename_i heq
        cases h
        obtain rfl : other = name := heq
        exact ⟨List.mem_cons_self, List.sublist_cons_self _ _⟩
      · obtain ⟨⟨found, behind⟩, hfound, heq⟩ := Option.map_eq_some_iff.1 h
        cases heq
        obtain ⟨hmem, hsub⟩ := ih hfound
        exact ⟨List.mem_cons_of_mem _ hmem, hsub.cons_cons _⟩

/-- A definition that may be entered is one of the strategy. -/
theorem definition_of_release? {w : World} {available left : Definitions}
    (ha : available.Sublist w.definitions) {name : String} {value : Expr}
    (h : release? name available = some (value, left)) :
    w.strategy.definitions[name]? = some value ∧
      left.Sublist w.definitions := by
  obtain ⟨hmem, hsub⟩ := release?_sublist h
  refine ⟨?_, hsub.trans ha⟩
  exact Std.ExtTreeMap.mem_toList_iff_getElem?_eq_some.mp (ha.subset hmem)

theorem nodup_release? {name : String} {all left : Definitions}
    {value : Expr} (h : release? name all = some (value, left))
    (hall : (all.map Prod.fst).Nodup) :
    (left.map Prod.fst).Nodup ∧ name ∉ left.map Prod.fst ∧
      ∀ key e, (key, e) ∈ all → (key = name ∧ e = value) ∨ (key, e) ∈ left := by
  induction all generalizing left with
  | nil => cases h
  | cons entry rest ih =>
      obtain ⟨other, definition⟩ := entry
      obtain ⟨hother, hrest⟩ := List.nodup_cons.mp hall
      unfold release? at h
      split at h
      · rename_i heq
        obtain rfl : other = name := heq
        cases h
        refine ⟨hrest, hother, ?_⟩
        intro key e hmem
        rcases List.mem_cons.mp hmem with hhead | htail
        · cases hhead
          exact Or.inl ⟨rfl, rfl⟩
        · exact Or.inr htail
      · rename_i hne
        obtain ⟨⟨found, behind⟩, hfound, heq⟩ := Option.map_eq_some_iff.1 h
        cases heq
        obtain ⟨hnodup, hname, hkeys⟩ := ih hfound hrest
        have hsub := (release?_sublist hfound).2
        refine ⟨?_, ?_, ?_⟩
        · exact List.nodup_cons.mpr
            ⟨fun hin => hother ((hsub.map Prod.fst).subset hin), hnodup⟩
        · intro hin
          rcases List.mem_cons.mp hin with hhead | htail
          · exact hne hhead.symm
          · exact hname htail
        · intro key e hmem
          rcases List.mem_cons.mp hmem with hhead | htail
          · cases hhead
            exact Or.inr List.mem_cons_self
          · exact (hkeys key e htail).imp id (List.mem_cons_of_mem _)

theorem release?_eq_none {name : String} {all : Definitions}
    (h : release? name all = none) : name ∉ all.map Prod.fst := by
  induction all with
  | nil => exact List.not_mem_nil
  | cons entry rest ih =>
      obtain ⟨other, definition⟩ := entry
      unfold release? at h
      split at h
      · cases h
      · rename_i hne
        intro hin
        rcases List.mem_cons.mp hin with hhead | htail
        · exact hne hhead.symm
        · exact ih (Option.map_eq_none_iff.mp h) htail

/-- What may be entered besides a definition may be entered while that one is
being read. -/
theorem release?_of_ne {name other : String} {all left left' : Definitions}
    {value e : Expr} (h : release? name all = some (value, left))
    (hne : other ≠ name) (h' : release? other all = some (e, left')) :
    ∃ rest, release? other left = some (e, rest) := by
  induction all generalizing left left' with
  | nil => cases h
  | cons entry rest ih =>
      obtain ⟨key, definition⟩ := entry
      unfold release? at h h'
      -- The first entry is taken out, or it stays in front of what is left.
      by_cases hkey : key = name
      · rw [if_pos hkey] at h
        cases h
        rw [if_neg fun heq => hne (heq.symm.trans hkey)] at h'
        obtain ⟨⟨found, behind⟩, hfound, heq⟩ := Option.map_eq_some_iff.1 h'
        cases heq
        exact ⟨behind, hfound⟩
      · rw [if_neg hkey] at h
        obtain ⟨⟨found, behind⟩, hfound, heq⟩ := Option.map_eq_some_iff.1 h
        cases heq
        unfold release?
        by_cases hother : key = other
        · rw [if_pos hother] at h'
          cases h'
          exact ⟨behind, if_pos hother⟩
        · rw [if_neg hother] at h'
          obtain ⟨⟨found', behind'⟩, hfound', heq'⟩ :=
            Option.map_eq_some_iff.1 h'
          cases heq'
          obtain ⟨rest', hrest'⟩ := ih hfound hfound'
          rw [if_neg hother, hrest']
          exact ⟨(key, definition) :: rest', rfl⟩

/-! ## All definitions -/

theorem nodup_names (s : Strategy) :
    (s.definitions.toList.map Prod.fst).Nodup := by
  have hdistinct : s.definitions.toList.Pairwise fun a b =>
      ¬compare a.1 b.1 = .eq :=
    Std.ExtTreeMap.distinct_keys_toList
  refine List.pairwise_map.mpr (hdistinct.imp ?_)
  intro a b hne heq
  rw [heq] at hne
  exact hne Std.ReflCmp.compare_self

theorem nodup_definitions (w : World) :
    (w.definitions.map Prod.fst).Nodup :=
  nodup_names w.strategy

/-- A name without a definition has none to enter. -/
theorem release?_undefined {s : Strategy} {available : Definitions}
    (ha : available.Sublist s.definitions.toList) {name : String}
    (h : s.definitions[name]? = none) : release? name available = none := by
  cases hr : release? name available with
  | none => rfl
  | some found =>
      have hmem := ha.subset (release?_sublist hr).1
      rw [Std.ExtTreeMap.mem_toList_iff_getElem?_eq_some.mp hmem] at h
      cases h

/-- At first every definition may be entered. -/
theorem release?_definitions {w : World} {name : String} {e : Expr}
    (h : w.strategy.definitions[name]? = some e) :
    ∃ left, release? name w.definitions = some (e, left) := by
  have hmem : (name, e) ∈ w.definitions :=
    Std.ExtTreeMap.mem_toList_iff_getElem?_eq_some.mpr h
  cases hr : release? name w.definitions with
  | none => exact absurd (List.mem_map_of_mem hmem) (release?_eq_none hr)
  | some found =>
      obtain ⟨value, left⟩ := found
      obtain ⟨hvalue, _⟩ := definition_of_release? (List.Sublist.refl _) hr
      rw [h] at hvalue
      cases hvalue
      exact ⟨left, rfl⟩

end Barscript.Session

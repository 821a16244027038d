import Barscript.Proofs.Text.Blank
import Barscript.Proofs.Text.Bytes
import Barscript.Settings.Sections

/-!
# What a settings file holds

The keys of a section come in the order of their bytes, each once, and no value read from
a file has blanks around it. The second is an invariant of the reading: a line sets a key
to a trimmed text or to nothing, and a key that is set takes no other key's value.
-/

namespace Barscript.Settings

open Barscript.Text

/-! ## Keys -/

theorem mem_keys {s : Sections} {name key : String} :
    key ∈ s.keys name ↔ key ∈ s.keysOf name :=
  Std.ExtTreeMap.mem_keys

/-- The keys of a section are in the order of their bytes. -/
theorem pairwise_keys (s : Sections) (name : String) :
    (s.keys name).Pairwise fun a b => bytes a < bytes b := by
  have hordered : (s.keys name).Pairwise fun a b => compare a b = .lt :=
    Std.ExtTreeMap.ordered_keys
  exact hordered.imp fun h => bytes_lt (compareOfLessAndEq_eq_lt.mp h)

/-! ## Values -/

theorem value?_set (s : Sections) (name key other otherKey : String)
    (value : Option String) :
    (s.set name key value).value? other otherKey =
      if name = other ∧ key = otherKey then value else s.value? other otherKey := by
  unfold Sections.value?
  rw [Sections.keysOf_set]
  by_cases hname : name = other
  · subst hname
    rw [if_pos rfl, Std.ExtTreeMap.getElem?_insert]
    by_cases hkey : key = otherKey
    · rw [if_pos (Std.LawfulEqCmp.compare_eq_iff_eq.mpr hkey), if_pos ⟨rfl, hkey⟩]
      rfl
    · rw [if_neg (mt Std.LawfulEqCmp.compare_eq_iff_eq.mp hkey),
        if_neg fun h => hkey h.2]
  · rw [if_neg hname, if_neg fun h => hname h.1]

/-- No blank stands around a text. -/
def IsTrimmed (raw : String) : Prop :=
  trim raw.toList = raw.toList

/-- No value has blanks around it. -/
def Sections.AllTrimmed (s : Sections) : Prop :=
  ∀ name key, ∀ raw ∈ s.value? name key, IsTrimmed raw

theorem allTrimmed_empty : Sections.empty.AllTrimmed := by
  intro name key raw hraw
  cases hraw

/-- **One step keeps the values trimmed:** setting a key to a trimmed text or to nothing. -/
theorem Sections.AllTrimmed.set {s : Sections} (h : s.AllTrimmed) (name key : String)
    {value : Option String} (hvalue : ∀ raw ∈ value, IsTrimmed raw) :
    (s.set name key value).AllTrimmed := by
  intro other otherKey raw hraw
  rw [value?_set] at hraw
  split at hraw
  · exact hvalue raw hraw
  · exact h other otherKey raw hraw

/-- The value on a line is trimmed. -/
theorem trim_of_read {line key : List Char} {value : Option (List Char)}
    (h : Line.read line = .ok (.setting key value)) : ∀ raw ∈ value, trim raw = raw := by
  unfold Line.read at h
  split at h
  · cases h
  · split at h <;> cases h
  · dsimp only at h
    split at h
    · cases h
      intro raw hraw
      cases hraw
    · split at h
      · cases h
      · cases h
        intro raw hraw
        cases hraw
        exact trim_trim _

/-- **A whole reading keeps the values trimmed,** by induction on the lines. -/
theorem Sections.AllTrimmed.extend {lines : List (List Char)} {s s' : Sections}
    {current : String} {number : Nat} (hs : s.AllTrimmed)
    (h : s.extend current number lines = .ok s') : s'.AllTrimmed := by
  induction lines generalizing s current number with
  | nil =>
      cases h
      exact hs
  | cons line rest ih =>
      rw [Sections.extend] at h
      split at h
      · cases h
      · exact ih hs h
      · exact ih hs h
      · rename_i key value hread
        refine ih (hs.set current (String.ofList key) fun raw hraw => ?_) h
        obtain ⟨text, htext, rfl⟩ := Option.map_eq_some_iff.mp hraw
        unfold IsTrimmed
        rw [String.toList_ofList]
        exact trim_of_read hread text htext

/-- No value of a settings file has blanks around it. -/
theorem allTrimmed_read {text : String} {s : Sections} (h : Sections.read text = .ok s) :
    s.AllTrimmed :=
  allTrimmed_empty.extend h

/-- A number read from a settings file is the one that its text spells without blanks
around it. -/
theorem Sections.AllTrimmed.number {s : Sections} (h : s.AllTrimmed) (name key : String)
    (default : Float) :
    s.number name key default =
      ((s.value? name key).bind fun raw => Decimal.read? (trim raw.toList)).getD default := by
  unfold Sections.number
  cases hvalue : s.value? name key with
  | none => rfl
  | some raw =>
      rw [Option.bind_some, Option.bind_some, h name key raw hvalue]
      rfl

end Barscript.Settings

import Barscript.Session.Evaluation
import Barscript.Proofs.Builtin.Functions
import Barscript.Proofs.Builtin.Indicators

/-!
# A world over fewer bars

`w.upTo n` is the world `w` before the bars behind the oldest `n` arrived. The
names that a script does not define read the same there, cut to the view, with
one exception: the name that marks the newest bar in view.
-/

namespace Barscript.Session

open Barscript.Script Barscript.Series Barscript.Builtin Barscript.Market
open Barscript.Trading

/-- The world when only the oldest `n` bars had arrived. -/
def World.upTo (w : World) (n : Nat) : World :=
  { w with bars := w.bars.take n }

/-- The world with another position. -/
def World.holding (w : World) (p : Position) : World :=
  { w with position := p }

/-- No input was replaced by a column; a text may still name one. -/
def World.PlainOverrides (w : World) : Prop :=
  ∀ (name : String) (v : Value), w.overrides[name]? = some v →
    v.isColumn = false

/-- The builtin names besides the price columns. -/
def builtinNames : List String :=
  ["time", "bar_index", "na", "strategy.position_size", "strategy.long",
    "strategy.short", "barstate.isfirst", "barstate.islast",
    "syminfo.ticker", "syminfo.tickerid"] ++ indicatorVariables

/-- Whether a name has a value that the script cannot define. -/
def World.isFixed (w : World) (name : String) : Bool :=
  w.overrides.contains name || (priceOf? name).isSome ||
    builtinNames.contains name

/-! ## Which names are fixed -/

theorem isSome_price? (w : World) (name : String) (k : Nat) :
    (w.price? name k).isSome = (priceOf? name).isSome := by
  rw [World.price?, Market.column?, Option.isSome_map, Option.isSome_map]

theorem isSome_builtin? (w : World) (name : String) (k : Nat) :
    (w.builtin? name k).isSome = builtinNames.contains name := by
  unfold World.builtin?
  split
  · rfl
  · rfl
  · rfl
  · rfl
  · rfl
  · rfl
  · rfl
  · rfl
  · rfl
  · rfl
  · -- None of the ten names: only those of indicators remain.
    have hsplit : builtinNames.contains name =
        indicatorVariables.contains name := by
      simp_all [builtinNames]
    rw [hsplit]
    split
    · simp_all
    · simp_all

theorem isSome_override? (w : World) (name : String) (k : Nat) :
    (w.override? name k).isSome = w.overrides.contains name := by
  rw [Std.ExtTreeMap.contains_eq_isSome_getElem?]
  unfold World.override?
  split
  · simp_all
  · simp_all

theorem isSome_fixed? (w : World) (name : String) (k : Nat) :
    (w.fixed? name k).isSome = w.isFixed name := by
  unfold World.fixed? World.isFixed
  rw [Option.isSome_or, Option.isSome_or, isSome_override?, isSome_price?,
    isSome_builtin?, Bool.or_assoc]

/-! ## Reading a fixed name in a view -/

section

variable {w : World} {n k l : Nat} {name : String}

theorem begins_price? (hk : k ≤ n) (hl : l ≤ w.bars.length) (hkl : k ≤ l)
    (name : String) :
    Option.Rel (Value.Begins k l) ((w.upTo n).price? name k)
      (w.price? name l) := by
  unfold World.price? Market.column?
  cases priceOf? name with
  | none => exact .none
  | some price =>
      refine .some (.series ⟨hkl, ?_, ?_⟩)
      · rw [List.length_take, List.length_map, Nat.min_eq_left hl]
      · show (((w.bars.take n).map price).take k) = _
        rw [List.map_take, List.take_take, List.take_take,
          Nat.min_eq_left hk, Nat.min_eq_left hkl]

theorem begins_override? (ho : w.PlainOverrides) (hk : k ≤ n)
    (hl : l ≤ w.bars.length) (hkl : k ≤ l) (name : String) :
    Option.Rel (Value.Begins k l) ((w.upTo n).override? name k)
      (w.override? name l) := by
  have hsame : (w.upTo n).overrides[name]? = w.overrides[name]? := rfl
  unfold World.override?
  rw [hsame]
  cases hv : w.overrides[name]? with
  | none => exact .none
  | some v =>
      have hplain : v.isColumn = false := ho name v hv
      cases v with
      | text s =>
          -- The text may name a price column.
          exact .some (.getD (begins_price? hk hl hkl s) (.scalar rfl))
      | _ => exact .some (.scalar hplain)

theorem begins_time (hk : k ≤ n) (hl : l ≤ w.bars.length) (hkl : k ≤ l)
    (f : Bar → Float) :
    Series.Begins k l (((w.upTo n).bars.take k).map f)
      ((w.bars.take l).map f) := by
  refine ⟨hkl, ?_, ?_⟩
  · rw [List.length_map, List.length_take, Nat.min_eq_left hl]
  · show (((w.bars.take n).take k).map f) = _
    rw [← List.map_take, List.take_take, List.take_take, Nat.min_eq_left hk,
      Nat.min_eq_left hkl]

theorem begins_indicatorVariable (name : String) (hn : n ≤ w.bars.length)
    (hk : k ≤ n) (hl : l ≤ w.bars.length) (hkl : k ≤ l) :
    Value.Begins k l
      (((indicator? name .empty (w.bars.take n)).map
        (Value.truncate k)).getD .na)
      (((indicator? name .empty w.bars).map (Value.truncate l)).getD .na) := by
  have hfull := begins_indicator? name (Arguments.Begins.empty) hn
    (.refl .empty name)
  have hcut := hfull.truncate hk hl hkl
  unfold indicator? at hcut ⊢
  split
  · rename_i hknown
    rw [if_pos hknown, if_pos hknown] at hcut
    exact hcut
  · exact .na

/-- The builtin names read the same in both views, cut to the shorter one. Only
the mark of the newest bar needs the views to end at one bar. -/
theorem begins_builtin? (hn : n ≤ w.bars.length) (hk : k ≤ n)
    (hl : l ≤ w.bars.length) (hkl : k ≤ l)
    (hnewest : k = l ∨ name ≠ "barstate.islast") :
    Option.Rel (Value.Begins k l) ((w.upTo n).builtin? name k)
      (w.builtin? name l) := by
  have hrange := Series.Begins.range hkl
  unfold World.builtin?
  split
  · exact .some (.series (begins_time hk hl hkl _))
  · exact .some (.series (hrange.map Float.ofNat))
  · exact .some (.number _)
  · exact .some (.number _)
  · exact .some (.scalar rfl)
  · exact .some (.scalar rfl)
  · exact .some (.series (hrange.map fun i => flag (i == 0)))
  · rcases hnewest with rfl | hne
    · exact .some (.series (hrange.map fun i => flag (i + 1 == k)))
    · exact absurd rfl hne
  · exact .some (.scalar rfl)
  · exact .some (.scalar rfl)
  · split
    · exact .some (begins_indicatorVariable name hn hk hl hkl)
    · exact .none

theorem rel_or {α β : Type} {R : α → β → Prop} {a a' : Option α}
    {b b' : Option β} (h : Option.Rel R a b) (h' : Option.Rel R a' b') :
    Option.Rel R (a.or a') (b.or b') := by
  cases h with
  | none => exact h'
  | some hxy => exact .some hxy

/-- **Fixed names** read over fewer bars give the beginning of what they read
over all. -/
theorem begins_fixed? (ho : w.PlainOverrides) (hn : n ≤ w.bars.length)
    (hk : k ≤ n) (hl : l ≤ w.bars.length) (hkl : k ≤ l)
    (hnewest : k = l ∨ name ≠ "barstate.islast") :
    Option.Rel (Value.Begins k l) ((w.upTo n).fixed? name k)
      (w.fixed? name l) :=
  rel_or (begins_override? ho hk hl hkl name)
    (rel_or (begins_price? hk hl hkl name)
      (begins_builtin? hn hk hl hkl hnewest))

end

end Barscript.Session

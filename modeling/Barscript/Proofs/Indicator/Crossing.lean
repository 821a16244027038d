import Barscript.Indicator.Crossing
import Barscript.Proofs.Bounds.Access
import Barscript.Proofs.Series.Order

/-!
# Crossings alternate

Of two columns that are never equal one is on top at every bar, and a crossing is a bar at which
the top changes. So the crossings to one side and those away from it balance against the sides of
the first and of the newest bar (`turns_balance`), which leaves one crossing back between a crossing
and a later one of its kind, and one more for each of its kind in between (`crossings_alternate`).
-/

namespace Barscript.Indicator

open Barscript.Series

/-! ## Turns -/

/-- Whether a bar turns to a side, from the sides of the bars so far, newest first. -/
def turn (side : Bool) : List Bool → Float
  | now :: before :: _ => flag (now == side && before != side)
  | _ => 0.0

/-- The bars at which a list of sides turns to one of them. -/
def turns (side : Bool) (sides : List Bool) : Column :=
  overHistory (turn side) sides

/-- How many bars of a column are marked. -/
def countMarked (xs : Column) : ℕ :=
  xs.countP (· == 1.0)

/-- How many bars strictly between two bars are marked. -/
def countBetween (i j : ℕ) (xs : Column) : ℕ :=
  countMarked ((xs.take j).drop (i + 1))

theorem flag_eq_one {b : Bool} : flag b = 1.0 ↔ b = true := by
  revert b
  decide +kernel

theorem countMarked_append (xs ys : Column) :
    countMarked (xs ++ ys) = countMarked xs + countMarked ys :=
  List.countP_append

theorem countMarked_flag (b : Bool) : countMarked [flag b] = if b then 1 else 0 := by
  revert b
  decide +kernel

section

variable {side : Bool} {sides : List Bool} {i j : ℕ}

theorem turns_concat (side before now : Bool) (sides : List Bool) :
    turns side (sides ++ [before] ++ [now]) =
      turns side (sides ++ [before]) ++ [flag (now == side && before != side)] := by
  unfold turns
  rw [overHistory_concat, List.reverse_concat]
  rfl

/-- **The turns to a side balance those away from it.** -/
theorem turns_balance (side : Bool) (sides : List Bool) :
    countMarked (turns side sides) + (if sides.head? = some side then 1 else 0) =
      countMarked (turns (!side) sides) + (if sides.getLast? = some side then 1 else 0) := by
  induction sides using List.reverseRecOn with
  | nil => rfl
  | append_singleton sides now ih =>
      rcases List.eq_nil_or_concat sides with rfl | ⟨sides, before, rfl⟩
      · rfl
      · rw [List.concat_eq_append] at ih ⊢
        have hhead : (sides ++ [before] ++ [now]).head? = (sides ++ [before]).head? :=
          List.head?_append_of_ne_nil _ (List.concat_ne_nil before sides)
        rw [List.getLast?_concat] at ih
        rw [turns_concat, turns_concat, countMarked_append, countMarked_append, countMarked_flag,
          countMarked_flag, List.getLast?_concat, hhead]
        -- Only a bar on another side than the one before it counts on either side.
        revert ih
        cases now <;> cases before <;> cases side <;> simp <;> omega

/-- A turn to a side comes from the other one. -/
theorem turns_at {t : ℕ} (h : (turns side sides)[t]? = some 1.0) :
    sides[t]? = some side ∧ ∃ s, t = s + 1 ∧ sides[s]? = some (!side) := by
  unfold turns at h
  obtain ⟨ht, hturn⟩ := List.getElem?_eq_some_iff.mp h
  have hlt : t < sides.length := by
    rwa [length_overHistory] at ht
  rw [Bounds.getElem_overHistory] at hturn
  cases t with
  | zero =>
      rw [Bounds.history_first hlt] at hturn
      have hzero : (0.0 : Float) = 1.0 := hturn
      exact absurd hzero (by decide +kernel)
  | succ s =>
      rw [Bounds.history_later hlt] at hturn
      have hsides := flag_eq_one.mp hturn
      rw [Bool.and_eq_true, beq_iff_eq, bne_iff_ne] at hsides
      have hnow := List.getElem?_eq_getElem hlt
      have hbefore := List.getElem?_eq_getElem (Nat.lt_of_succ_lt hlt)
      rw [hsides.1] at hnow
      rw [Bool.eq_not_of_ne hsides.2] at hbefore
      exact ⟨hnow, s, rfl, hbefore⟩

/-- The balance at a bar. -/
theorem turns_balance_at (side : Bool) {t : ℕ} {now : Bool} (h : sides[t]? = some now) :
    countMarked ((turns side sides).take (t + 1)) + (if sides.head? = some side then 1 else 0) =
      countMarked ((turns (!side) sides).take (t + 1)) + (if now = side then 1 else 0) := by
  have hbalance := turns_balance side (sides.take (t + 1))
  have hhead : (sides.take (t + 1)).head? = sides.head? := by
    rw [List.head?_take, if_neg (Nat.succ_ne_zero t)]
  have hlast : (sides.take (t + 1)).getLast? = some now := by
    rw [List.getLast?_take, if_neg (Nat.succ_ne_zero t), Nat.add_sub_cancel, h, Option.some_or]
  simp only [hhead, hlast, Option.some_inj] at hbalance
  unfold turns at hbalance ⊢
  rwa [take_overHistory, take_overHistory]

theorem countMarked_take (xs : Column) (h : i < j) :
    countMarked (xs.take j) = countMarked (xs.take (i + 1)) + countBetween i j xs := by
  have hsplit := List.take_append_drop (i + 1) (xs.take j)
  rw [List.take_take, Nat.min_eq_left h] at hsplit
  unfold countBetween
  rw [← countMarked_append, hsplit]

/-- Between two turns to a side there is one more turn away from it. -/
theorem countBetween_turns (h : i < j) (hi : (turns side sides)[i]? = some 1.0)
    (hj : (turns side sides)[j]? = some 1.0) :
    countBetween i j (turns (!side) sides) = countBetween i j (turns side sides) + 1 := by
  obtain ⟨hside, -⟩ := turns_at hi
  obtain ⟨-, s, rfl, hother⟩ := turns_at hj
  have hfirst := turns_balance_at side hside
  have hlast := turns_balance_at side hother
  rw [if_pos rfl] at hfirst
  rw [if_neg (Bool.not_ne_self side)] at hlast
  have hto := countMarked_take (turns side sides) h
  have hfrom := countMarked_take (turns (!side) sides) h
  omega

end

/-! ## Columns -/

/-- Two columns of defined numbers that are never equal. -/
structure Apart (a b : Column) : Prop where
  left : ∀ x ∈ a, x.isNaN = false
  right : ∀ y ∈ b, y.isNaN = false
  ne : ∀ p ∈ List.zip a b, (p.1 != p.2) = true

/-- Whether the first column is on top. -/
def onTop (p : Float × Float) : Bool :=
  decide (p.2 < p.1)

/-- Which column is on top at each bar. -/
def sides (a b : Column) : List Bool :=
  (List.zip a b).map onTop

section

variable {α β γ : Type}

theorem overHistory_congr {f g : List α → β} {xs : List α}
    (h : ∀ past, past ⊆ xs → f past = g past) : overHistory f xs = overHistory g xs := by
  induction xs using List.reverseRecOn with
  | nil => rfl
  | append_singleton xs x ih =>
      have hlater : x :: xs.reverse ⊆ xs ++ [x] := by simp
      rw [overHistory_concat, overHistory_concat, h _ hlater,
        ih fun past hpast => h past (List.Subset.trans hpast (List.subset_append_left xs [x]))]

theorem overHistory_map (f : List β → γ) (g : α → β) (xs : List α) :
    overHistory f (xs.map g) = overHistory (fun past => f (past.map g)) xs := by
  induction xs using List.reverseRecOn with
  | nil => rfl
  | append_singleton xs x ih =>
      rw [List.map_append, List.map_singleton, overHistory_concat, overHistory_concat, ih,
        List.map_cons, List.map_reverse]

end

section

variable {a b : Column} {crossed : Float × Float → Float × Float → Bool} {side : Bool}

theorem crossing_eq_turns
    (h : ∀ now ∈ List.zip a b, ∀ before ∈ List.zip a b,
      crossed now before = (onTop now == side && onTop before != side)) :
    crossing crossed a b = turns side (sides a b) := by
  unfold crossing turns sides
  rw [overHistory_map]
  apply overHistory_congr
  intro past hpast
  match past with
  | [] => rfl
  | [_] => rfl
  | now :: before :: _ =>
      have hnow := hpast (List.mem_cons_self ..)
      have hbefore := hpast (List.mem_cons_of_mem _ (List.mem_cons_self ..))
      exact congrArg flag (h now hnow before hbefore)

/-- Where the columns are apart, every comparison of theirs tells which one is on top. -/
theorem Apart.comparisons (h : Apart a b) {p : Float × Float} (hp : p ∈ List.zip a b) :
    decide (p.1 < p.2) = (!onTop p) ∧ decide (p.1 ≤ p.2) = (!onTop p) ∧
      decide (p.2 ≤ p.1) = onTop p := by
  have hleft := h.left p.1 (List.of_mem_zip hp).1
  have hright := h.right p.2 (List.of_mem_zip hp).2
  have hne := lt_iff_not_lt_of_bne hleft hright (h.ne p hp)
  unfold onTop
  simp [le_iff_not_lt hleft hright, le_iff_not_lt hright hleft, hne]

theorem crossover_eq_turns (h : Apart a b) : crossover a b = turns true (sides a b) := by
  apply crossing_eq_turns
  intro now _ before hbefore
  obtain ⟨-, hbelow, -⟩ := h.comparisons hbefore
  simp [onTop, hbelow]

theorem crossunder_eq_turns (h : Apart a b) : crossunder a b = turns false (sides a b) := by
  apply crossing_eq_turns
  intro now hnow before hbefore
  obtain ⟨hnow, -, -⟩ := h.comparisons hnow
  obtain ⟨-, -, hbefore⟩ := h.comparisons hbefore
  simp [hnow, hbefore]

/-- **Crossings alternate.** No bar is a crossing to both sides, and between two crossings to one
side there is one more to the other. -/
theorem crossings_alternate (h : Apart a b) :
    (∀ t : ℕ, ¬ ((crossover a b)[t]? = some 1.0 ∧ (crossunder a b)[t]? = some 1.0)) ∧
      (∀ i j : ℕ, i < j → (crossover a b)[i]? = some 1.0 → (crossover a b)[j]? = some 1.0 →
        countBetween i j (crossunder a b) = countBetween i j (crossover a b) + 1) ∧
      ∀ i j : ℕ, i < j → (crossunder a b)[i]? = some 1.0 → (crossunder a b)[j]? = some 1.0 →
        countBetween i j (crossover a b) = countBetween i j (crossunder a b) + 1 := by
  rw [crossover_eq_turns h, crossunder_eq_turns h]
  refine ⟨?_, ?_, ?_⟩
  · rintro t ⟨hover, hunder⟩
    have hside := (turns_at hover).1.symm.trans (turns_at hunder).1
    exact absurd (Option.some.inj hside) nofun
  · intro i j hij hi hj
    exact countBetween_turns hij hi hj
  · intro i j hij hi hj
    exact countBetween_turns hij hi hj

/-- A price that swings about a level. -/
def swinging : Column :=
  [1.0, 3.0, 2.5, 1.0, 3.0]

/-- The level that it swings about. -/
def swingLevel : Column :=
  [2.0, 2.0, 2.0, 2.0, 2.0]

theorem crossings_alternate_swinging :
    Apart swinging swingLevel ∧ (crossover swinging swingLevel)[1]? = some 1.0 ∧
      (crossover swinging swingLevel)[4]? = some 1.0 ∧
      countBetween 1 4 (crossunder swinging swingLevel) =
        countBetween 1 4 (crossover swinging swingLevel) + 1 := by
  have h : Apart swinging swingLevel := ⟨by decide +kernel, by decide +kernel, by decide +kernel⟩
  have hfirst : (crossover swinging swingLevel)[1]? = some 1.0 := by decide +kernel
  have hsecond : (crossover swinging swingLevel)[4]? = some 1.0 := by decide +kernel
  exact ⟨h, hfirst, hsecond, (crossings_alternate h).2.1 1 4 (by decide) hfirst hsecond⟩

end

end Barscript.Indicator

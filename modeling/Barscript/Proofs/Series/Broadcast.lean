import Barscript.Proofs.Series.Order
import Barscript.Proofs.Series.Value

/-!
# Scalars and constant columns

In a formula of operators a scalar may be written out as the column that
repeats it, and the formula is true at the same bars. A scalar and its column
part in one place: the negation of an undefined number is absent, and what is
computed from something absent is absent, but the negation of an undefined bar
is an undefined bar, and comparisons and logical operators read it as false. So
an operand of those that holds such a scalar must not be absent.
-/

namespace Barscript.Series

open Barscript.Script

variable {n i : Nat} {v w v' w' : Value} {xs ys : Column}

/-! ## Undefined numbers -/

/-- An operation on numbers is undefined when one of them is. -/
def Strict (f : Float → Float → Float) : Prop :=
  ∀ a b, a.isNaN = true ∨ b.isNaN = true → (f a b).isNaN = true

theorem isNaN_pack : (Float.Model.pack .notANumber).unpack.isNaN = true := by
  decide +kernel

/-- The operations of doubles are given on their parts. -/
theorem strict_of_unpacked {f : Float → Float → Float}
    {g : Float.Model.UnpackedFloat → Float.Model.UnpackedFloat →
      Float.Model.UnpackedFloat}
    (hf : ∀ a b, (f a b).isNaN =
      (Float.Model.pack (g a.toModel.unpack b.toModel.unpack)).unpack.isNaN)
    (hleft : ∀ u, g .notANumber u = .notANumber)
    (hright : ∀ u, g u .notANumber = .notANumber) : Strict f := by
  rintro a b (ha | hb)
  · rw [hf, unpack_of_isNaN ha, hleft]
    exact isNaN_pack
  · rw [hf, unpack_of_isNaN hb, hright]
    exact isNaN_pack

theorem strict_add : Strict (· + ·) :=
  strict_of_unpacked (fun _ _ => rfl) (fun _ => rfl) fun u => by
    cases u <;> rfl

theorem strict_sub : Strict (· - ·) :=
  strict_of_unpacked (fun _ _ => rfl) (fun _ => rfl) fun u => by
    cases u <;> rfl

theorem strict_mul : Strict (· * ·) :=
  strict_of_unpacked (fun _ _ => rfl) (fun _ => rfl) fun u => by
    cases u <;> rfl

theorem strict_div : Strict (· / ·) :=
  strict_of_unpacked (fun _ _ => rfl) (fun _ => rfl) fun u => by
    cases u <;> rfl

theorem isNaN_neg {x : Float} (h : x.isNaN = true) : (-x).isNaN = true := by
  change (Float.Model.pack x.toModel.unpack.neg).unpack.isNaN = true
  rw [unpack_of_isNaN h]
  exact isNaN_pack

theorem strict_applyOp {op : BinaryOp} (hop : op.isLogical = false) :
    Strict (applyOp op) := by
  cases op with
  | add => exact strict_add
  | sub => exact strict_sub
  | mul => exact strict_mul
  | div => exact strict_div
  | mod =>
      rintro a b (ha | hb)
      · exact strict_sub _ _ (.inl ha)
      · exact strict_sub _ _ (.inr (strict_mul _ _ (.inl hb)))
  | _ => cases hop

theorem isTrue_of_isNaN {x : Float} (h : x.isNaN = true) :
    isTrue x = false := by
  rw [isTrue, h]
  rfl

theorem isTrue_flag (b : Bool) : isTrue (flag b) = b := by
  revert b
  decide +kernel

/-- A logical operator answers with a truth value. -/
theorem flag_isTrue_applyOp {op : BinaryOp} (hop : op.isLogical = true)
    (a b : Float) : flag (isTrue (applyOp op a b)) = applyOp op a b := by
  cases op with
  | add | sub | mul | div | mod => cases hop
  | _ => exact congrArg flag (isTrue_flag _)

/-- No bar of a column is defined. -/
def AllUndefined (xs : Column) : Prop :=
  ∀ x ∈ xs, x.isNaN = true

theorem AllUndefined.isTrueAt (h : AllUndefined xs) (i : Nat) :
    isTrueAt xs i = false := by
  unfold Series.isTrueAt
  cases hx : xs[i]? with
  | none => rfl
  | some x => exact isTrue_of_isNaN (h x (List.mem_of_getElem? hx))

theorem Strict.zipWith_left {f : Float → Float → Float} (hf : Strict f)
    (h : AllUndefined xs) (ys : Column) :
    AllUndefined (List.zipWith f xs ys) := by
  intro z hz
  obtain ⟨i, hi, rfl⟩ := List.mem_iff_getElem.mp hz
  rw [List.getElem_zipWith]
  exact hf _ _ (.inl (h _ (List.getElem_mem _)))

theorem Strict.zipWith_right {f : Float → Float → Float} (hf : Strict f)
    (xs : Column) (h : AllUndefined ys) :
    AllUndefined (List.zipWith f xs ys) := by
  intro z hz
  obtain ⟨i, hi, rfl⟩ := List.mem_iff_getElem.mp hz
  rw [List.getElem_zipWith]
  exact hf _ _ (.inr (h _ (List.getElem_mem _)))

/-! ## Values as columns -/

/-- The value is a number, a truth value or a column of `n` bars, and reads as
this column. -/
inductive Value.HasColumn (n : Nat) : Value → Column → Prop where
  | number (x : Float) : HasColumn n (.number x) (.replicate n x)
  | bool (b : Bool) : HasColumn n (.bool b) (.replicate n (flag b))
  | series {xs : Column} (h : xs.length = n) : HasColumn n (.series xs) xs

theorem Value.HasColumn.length (h : v.HasColumn n xs) : xs.length = n := by
  cases h with
  | number | bool => exact List.length_replicate
  | series h => exact h

theorem Value.HasColumn.column? (h : v.HasColumn n xs) :
    v.column? n = some xs := by
  cases h <;> rfl

theorem Value.HasColumn.primary (h : v.HasColumn n xs) : v.primary = v := by
  cases h <;> rfl

theorem isTrueAt_replicate (x : Float) (hi : i < n) :
    isTrueAt (.replicate n x) i = isTrue x := by
  rw [isTrueAt, List.getElem?_replicate, if_pos hi]
  rfl

theorem Value.HasColumn.truthyAt (h : v.HasColumn n xs) (hi : i < n) :
    v.truthyAt i = isTrueAt xs i := by
  cases h with
  | number x => exact (isTrueAt_replicate x hi).symm
  | bool b => exact ((isTrueAt_replicate (flag b) hi).trans (isTrue_flag b)).symm
  | series => rfl

theorem Value.HasColumn.zipWith_left (f : Float → Float → Float)
    (hx : xs.length = n) (h : w.HasColumn n ys) :
    Value.zipWith f (.series xs) w = .series (List.zipWith f xs ys) := by
  cases h with
  | number | bool =>
      rw [Value.zipWith_series_scalar f hx rfl]
      rfl
  | series hy => exact Value.zipWith_series f hx hy

theorem Value.HasColumn.zipWith_right (f : Float → Float → Float)
    (h : v.HasColumn n xs) (hy : ys.length = n) :
    Value.zipWith f v (.series ys) = .series (List.zipWith f xs ys) := by
  cases h with
  | number | bool =>
      rw [Value.zipWith_scalar_series f hy rfl]
      rfl
  | series hx => exact Value.zipWith_series f hx hy

theorem Value.HasColumn.binary_eq (op : BinaryOp) (h : v.HasColumn n xs)
    (h' : w.HasColumn n ys) :
    Value.binary op v w = (Value.zipWith (applyOp op) v w).asLogical op := by
  cases h <;> cases h' <;> rfl

/-- An operator beside a column works bar by bar. -/
theorem Value.HasColumn.binary_series_left (op : BinaryOp)
    (hx : xs.length = n) (h : w.HasColumn n ys) :
    Value.binary op (.series xs) w =
      .series (List.zipWith (applyOp op) xs ys) := by
  rw [(HasColumn.series hx).binary_eq op h, h.zipWith_left _ hx]
  rfl

theorem Value.HasColumn.binary_series_right (op : BinaryOp)
    (h : v.HasColumn n xs) (hy : ys.length = n) :
    Value.binary op v (.series ys) =
      .series (List.zipWith (applyOp op) xs ys) := by
  rw [h.binary_eq op (.series hy), h.zipWith_right _ hy]
  rfl

/-- Two scalars combine to a scalar that reads as the combined columns. -/
theorem Value.hasColumn_asLogical (op : BinaryOp) (a b : Float) :
    ((Value.number (applyOp op a b)).asLogical op).HasColumn n
      (List.zipWith (applyOp op) (.replicate n a) (.replicate n b)) := by
  rw [List.zipWith_replicate, Nat.min_self, Value.asLogical]
  split
  · rename_i hop
    have hflag := Value.HasColumn.bool (n := n) (isTrue (applyOp op a b))
    rwa [flag_isTrue_applyOp hop] at hflag
  · exact .number _

theorem Value.HasColumn.binary (op : BinaryOp) (h : v.HasColumn n xs)
    (h' : w.HasColumn n ys) :
    (Value.binary op v w).HasColumn n (List.zipWith (applyOp op) xs ys) := by
  have hlength : (List.zipWith (applyOp op) xs ys).length = n := by
    rw [List.length_zipWith, h.length, h'.length, Nat.min_self]
  cases h with
  | series hx =>
      rw [h'.binary_series_left op hx]
      exact .series hlength
  | number x =>
      cases h' with
      | series hy =>
          rw [(HasColumn.number x).binary_series_right op hy]
          exact .series hlength
      | number y => exact Value.hasColumn_asLogical op x y
      | bool b => exact Value.hasColumn_asLogical op x (flag b)
  | bool a =>
      cases h' with
      | series hy =>
          rw [(HasColumn.bool a).binary_series_right op hy]
          exact .series hlength
      | number y => exact Value.hasColumn_asLogical op (flag a) y
      | bool b => exact Value.hasColumn_asLogical op (flag a) (flag b)

/-- An operator in front of one bar of a column. -/
def applyUnary (op : UnaryOp) (x : Float) : Float :=
  match op with
  | .neg => -x
  | .not => if x.isNaN then undefined else flag (!isTrue x)

theorem Value.unary_series (op : UnaryOp) (xs : Column) :
    Value.unary op (.series xs) = .series (xs.map (applyUnary op)) := by
  cases op <;> rfl

theorem isNaN_applyUnary (op : UnaryOp) {x : Float} (h : x.isNaN = true) :
    (applyUnary op x).isNaN = true := by
  cases op with
  | neg => exact isNaN_neg h
  | not =>
      rw [applyUnary, if_pos h]
      decide +kernel

theorem AllUndefined.map (op : UnaryOp) (h : AllUndefined xs) :
    AllUndefined (xs.map (applyUnary op)) := by
  intro z hz
  obtain ⟨x, hx, rfl⟩ := List.mem_map.mp hz
  exact isNaN_applyUnary op (h x hx)

/-- What stands in front of a scalar stands in front of each of its bars; an
undefined number has no negation, and no bar of its column has one. -/
theorem Value.HasColumn.unary (op : UnaryOp) (h : v.HasColumn n xs) :
    (Value.unary op v).HasColumn n (xs.map (applyUnary op)) ∨
      Value.unary op v = .na ∧ AllUndefined (xs.map (applyUnary op)) := by
  cases h with
  | series hx =>
      left
      rw [Value.unary_series]
      exact .series (by rw [List.length_map, hx])
  | bool b =>
      left
      rw [List.map_replicate]
      cases op with
      | neg => exact .number _
      | not =>
          have hnot : applyUnary .not (flag b) = flag (!b) := by
            revert b
            decide +kernel
          rw [hnot]
          exact .bool _
  | number x =>
      rw [List.map_replicate]
      cases op with
      | neg => exact Or.inl (.number _)
      | not =>
          show (if x.isNaN then Value.na else .bool (!isTrue x)).HasColumn n _ ∨
            (if x.isNaN then Value.na else .bool (!isTrue x)) = .na ∧ _
          by_cases hx : x.isNaN = true
          · rw [if_pos hx]
            refine Or.inr ⟨rfl, ?_⟩
            intro z hz
            rw [List.eq_of_mem_replicate hz]
            exact isNaN_applyUnary .not hx
          · rw [if_neg hx, applyUnary, if_neg hx]
            exact Or.inl (.bool _)

/-! ## A value and its column -/

/-- The value `w` may stand for the value `v`: it is the same, or the column
that `v` reads as. For what is absent a column without a defined bar may
stand. -/
inductive Value.StandsFor (n : Nat) : Value → Value → Prop where
  | absent : StandsFor n .na .na
  | undefined {xs : Column} (hx : xs.length = n) (h : AllUndefined xs) :
      StandsFor n .na (.series xs)
  | same {v : Value} {xs : Column} (h : v.HasColumn n xs) : StandsFor n v v
  | column {v : Value} {xs : Column} (h : v.HasColumn n xs) :
      StandsFor n v (.series xs)

theorem Value.StandsFor.truthyAt (h : Value.StandsFor n v w) (hi : i < n) :
    w.truthyAt i = v.truthyAt i := by
  cases h with
  | absent => rfl
  | undefined _ hx => exact hx.isTrueAt i
  | same => rfl
  | column h => exact (h.truthyAt hi).symm

/-- What is present has a column, which is the column of what stands for
it. -/
theorem Value.StandsFor.present_cases (h : Value.StandsFor n v w)
    (hv : v ≠ .na) :
    ∃ xs, v.HasColumn n xs ∧ (w = v ∨ w = .series xs) ∧
      w.HasColumn n xs := by
  cases h with
  | absent | undefined => exact absurd rfl hv
  | same h => exact ⟨_, h, Or.inl rfl, h⟩
  | column h => exact ⟨_, h, Or.inr rfl, .series h.length⟩

theorem Value.binary_na (op : BinaryOp) (v : Value) :
    Value.binary op v .na = .na := by
  unfold Value.binary
  cases v.primary <;> rfl

theorem Value.StandsFor.unary (op : UnaryOp) (h : Value.StandsFor n v w) :
    Value.StandsFor n (.unary op v) (.unary op w) := by
  have habsent : Value.unary op .na = .na := by cases op <;> rfl
  cases h with
  | absent =>
      rw [habsent]
      exact .absent
  | undefined hx h =>
      rw [habsent, Value.unary_series]
      exact .undefined (by rw [List.length_map, hx]) (h.map op)
  | same h =>
      rcases h.unary op with hcolumn | ⟨hna, -⟩
      · exact .same hcolumn
      · rw [hna]
        exact .absent
  | column h =>
      rw [Value.unary_series]
      rcases h.unary op with hcolumn | ⟨hna, hundefined⟩
      · exact .column hcolumn
      · rw [hna]
        exact .undefined (by rw [List.length_map, h.length]) hundefined

/-- What stands for a value is absent or has a column. -/
theorem Value.StandsFor.eq_na_or_hasColumn (h : Value.StandsFor n v w) :
    w = .na ∨ ∃ xs, w.HasColumn n xs := by
  cases h with
  | absent => exact Or.inl rfl
  | undefined hx _ => exact Or.inr ⟨_, .series hx⟩
  | same h => exact Or.inr ⟨_, h⟩
  | column h => exact Or.inr ⟨_, .series h.length⟩

theorem length_zipWith_columns (op : BinaryOp) (hx : xs.length = n)
    (hy : ys.length = n) :
    (List.zipWith (applyOp op) xs ys).length = n := by
  rw [List.length_zipWith, hx, hy, Nat.min_self]

/-- An operator on something absent. Nothing is absent on the other side only
if an undefined column stands for it, and then the operator is no comparison
and keeps the column undefined. -/
theorem Value.StandsFor.na_binary {op : BinaryOp}
    (h : Value.StandsFor n .na w) (h' : w' = .na ∨ ∃ ys, w'.HasColumn n ys)
    (hop : op.isLogical = true → w = .na) :
    Value.StandsFor n .na (.binary op w w') := by
  rcases h' with rfl | ⟨ys, hy⟩
  · rw [Value.binary_na]
    exact .absent
  · cases h with
    | absent | same => exact .absent
    | undefined hx hundefined =>
        cases hlogical : op.isLogical with
        | true => cases hop hlogical
        | false =>
            rw [hy.binary_series_left op hx]
            exact .undefined (length_zipWith_columns op hx hy.length)
              ((strict_applyOp hlogical).zipWith_left hundefined ys)
    | column h => cases h

theorem Value.StandsFor.binary_na {op : BinaryOp}
    (h : w = .na ∨ ∃ xs, w.HasColumn n xs) (h' : Value.StandsFor n .na w')
    (hop : op.isLogical = true → w' = .na) :
    Value.StandsFor n .na (.binary op w w') := by
  rcases h with rfl | ⟨xs, hx⟩
  · exact .absent
  · cases h' with
    | absent | same =>
        rw [Value.binary_na]
        exact .absent
    | undefined hy hundefined =>
        cases hlogical : op.isLogical with
        | true => cases hop hlogical
        | false =>
            rw [hx.binary_series_right op hy]
            exact .undefined (length_zipWith_columns op hx.length hy)
              ((strict_applyOp hlogical).zipWith_right xs hundefined)
    | column h => cases h

theorem Value.StandsFor.binary {op : BinaryOp} (h : Value.StandsFor n v w)
    (h' : Value.StandsFor n v' w')
    (hop : op.isLogical = true → v = .na → w = .na)
    (hop' : op.isLogical = true → v' = .na → w' = .na) :
    Value.StandsFor n (.binary op v v') (.binary op w w') := by
  by_cases hv : v = .na
  · subst hv
    exact h.na_binary h'.eq_na_or_hasColumn fun hlogical => hop hlogical rfl
  · by_cases hv' : v' = .na
    · subst hv'
      rw [Value.binary_na]
      exact .binary_na h.eq_na_or_hasColumn h' fun hlogical =>
        hop' hlogical rfl
    · obtain ⟨xs, hx, hw, hwx⟩ := h.present_cases hv
      obtain ⟨ys, hy, hw', hwy⟩ := h'.present_cases hv'
      have hcolumn := hx.binary op hy
      rcases hw with rfl | rfl
      · rcases hw' with rfl | rfl
        · exact .same hcolumn
        · rw [hwx.binary_series_right op hy.length]
          exact .column hcolumn
      · rw [hwy.binary_series_left op hx.length]
        exact .column hcolumn

/-! ## Formulas -/

/-- A formula of operators over values. A leaf can be marked. -/
inductive Formula where
  | leaf (value : Value) (marked : Bool)
  | unary (op : UnaryOp) (operand : Formula)
  | binary (op : BinaryOp) (left right : Formula)

namespace Formula

/-- What the formula evaluates to. -/
def value : Formula → Value
  | .leaf v _ => v
  | .unary op f => .unary op f.value
  | .binary op f g => .binary op f.value g.value

/-- The formula with every marked scalar written out as the column of `n` bars
that repeats its numeric reading. -/
def spread (n : Nat) : Formula → Formula
  | .leaf v marked =>
    match marked, v.scalar? with
    | true, some x => .leaf (.series (.replicate n x)) true
    | _, _ => .leaf v marked
  | .unary op f => .unary op (f.spread n)
  | .binary op f g => .binary op (f.spread n) (g.spread n)

/-- The leaves are numbers, truth values and columns of `n` bars. -/
def isNumeric (n : Nat) : Formula → Bool
  | .leaf (.number _) _ | .leaf (.bool _) _ => true
  | .leaf (.series xs) _ => xs.length == n
  | .leaf _ _ => false
  | .unary _ f => f.isNumeric n
  | .binary _ f g => f.isNumeric n && g.isNumeric n

/-- Some leaf is marked. -/
def hasMark : Formula → Bool
  | .leaf _ marked => marked
  | .unary _ f => f.hasMark
  | .binary _ f g => f.hasMark || g.hasMark

/-- No comparison and no logical operator has an operand that holds a mark and
is absent. -/
def isPresent : Formula → Bool
  | .leaf _ _ => true
  | .unary _ f => f.isPresent
  | .binary op f g =>
    f.isPresent && g.isPresent &&
      !(op.isLogical && (f.hasMark && f.value.isNa || g.hasMark && g.value.isNa))

variable {f g : Formula}

theorem spread_of_hasMark_eq_false (n : Nat) (h : f.hasMark = false) :
    f.spread n = f := by
  induction f with
  | leaf v marked =>
      obtain rfl : marked = false := h
      rfl
  | unary op f ih => rw [spread, ih h]
  | binary op f g ihf ihg =>
      obtain ⟨hf, hg⟩ := Bool.or_eq_false_iff.mp h
      rw [spread, ihf hf, ihg hg]

/-- A leaf and what is written for it. -/
theorem standsFor_leaf (marked : Bool)
    (h : (leaf v marked).isNumeric n = true) :
    Value.StandsFor n (leaf v marked).value
      ((leaf v marked).spread n).value := by
  have hcolumn : ∃ xs, v.HasColumn n xs := by
    cases v with
    | number x => exact ⟨_, .number x⟩
    | bool b => exact ⟨_, .bool b⟩
    | series xs => exact ⟨xs, .series (beq_iff_eq.mp h)⟩
    | _ => cases h
  obtain ⟨xs, hx⟩ := hcolumn
  cases marked with
  | false => exact .same hx
  | true =>
      cases hx with
      | number x => exact .column (.number x)
      | bool b => exact .column (.bool b)
      | series hx => exact .same (.series hx)

/-- What is absent on one side of an operator stays so when nothing is
marked. -/
theorem eq_na_of_spread (hpresent : (f.hasMark && f.value.isNa) = false)
    (hna : f.value = .na) : (f.spread n).value = .na := by
  rw [hna] at hpresent
  rw [spread_of_hasMark_eq_false n (by simpa [Value.isNa] using hpresent), hna]

theorem standsFor_spread (hf : f.isNumeric n = true)
    (hpresent : f.isPresent = true) :
    Value.StandsFor n f.value (f.spread n).value := by
  induction f with
  | leaf v marked => exact standsFor_leaf marked hf
  | unary op f ih => exact (ih hf hpresent).unary op
  | binary op f g ihf ihg =>
      obtain ⟨hleft, hright⟩ := Bool.and_eq_true_iff.mp hf
      obtain ⟨hoperands, hop⟩ := Bool.and_eq_true_iff.mp hpresent
      obtain ⟨hpf, hpg⟩ := Bool.and_eq_true_iff.mp hoperands
      have hlogical : op.isLogical = true →
          (f.hasMark && f.value.isNa) = false ∧
            (g.hasMark && g.value.isNa) = false := by
        intro hlogical
        rw [hlogical, Bool.true_and, Bool.not_eq_true'] at hop
        exact Bool.or_eq_false_iff.mp hop
      exact (ihf hleft hpf).binary (ihg hright hpg)
        (fun h => eq_na_of_spread (hlogical h).1)
        (fun h => eq_na_of_spread (hlogical h).2)

/-- **Scalars and columns agree.** Over `n` bars a formula of numbers, truth
values and columns is true at the same bars when any of its scalars are written
out as columns, unless a comparison or a logical operator has an operand that
holds one of them and is absent. -/
theorem truthyAt_spread (hf : f.isNumeric n = true)
    (hpresent : f.isPresent = true) (hi : i < n) :
    (f.spread n).value.truthyAt i = f.value.truthyAt i :=
  (standsFor_spread hf hpresent).truthyAt hi

/-- `xs > 2 and not false` for the column of two and three. -/
def aboveTwo : Formula :=
  .binary .and
    (.binary .gt (.leaf (.series [2.0, 3.0]) false) (.leaf (.number 2.0) true))
    (.unary .not (.leaf (.bool false) true))

theorem truthyAt_spread_aboveTwo :
    aboveTwo.isNumeric 2 = true ∧ aboveTwo.isPresent = true ∧
      (aboveTwo.spread 2).value.truthyAt 1 = aboveTwo.value.truthyAt 1 :=
  ⟨by decide, by decide +kernel,
    truthyAt_spread (by decide) (by decide +kernel) (by decide)⟩

/-- `not x or true` for an undefined `x`. -/
def undefinedNegated : Formula :=
  .binary .or (.unary .not (.leaf (.number undefined) true))
    (.leaf (.bool true) false)

/-- **A negated scalar can tell.** The negation of the undefined number makes
the whole formula absent, that of its column leaves the other operand. -/
theorem spread_shows :
    ¬ ∀ (f : Formula) (n i : Nat), f.isNumeric n = true → i < n →
      (f.spread n).value.truthyAt i = f.value.truthyAt i := by
  intro hclaim
  have hfalse : undefinedNegated.value.truthyAt 0 = false := by
    decide +kernel
  have htrue : (undefinedNegated.spread 1).value.truthyAt 0 = true := by
    decide +kernel
  have heq := hclaim undefinedNegated 1 0 (by decide) (by decide)
  rw [htrue, hfalse] at heq
  cases heq

end Formula

end Barscript.Series

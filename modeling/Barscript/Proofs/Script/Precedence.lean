import Barscript.Script.Expr

/-!
# Precedence

What an expression is spelled of, operand by operand (`Element`), and the ways
to group it (`Grouping`). A grouping is ordered if no operator stands below one
that binds tighter, operators of one precedence group to the left and ternaries
to the right. There is at most one ordered grouping of a spelling
(`Grouping.Ordered.unique`). None of this knows how expressions are read.
-/

namespace Barscript.Script

/-- How tightly an operator binds. A ternary binds looser than every
operator. -/
def BinaryOp.precedence : BinaryOp → Nat
  | .or => 1
  | .and => 2
  | .eq | .ne | .gt | .lt | .ge | .le => 3
  | .add | .sub => 4
  | .mul | .div | .mod => 5

theorem BinaryOp.precedence_pos (op : BinaryOp) : 0 < op.precedence := by
  cases op <;> decide

/-- What stands in an expression outside of its operands, and the operands. -/
inductive Element where
  | operand (e : Expr)
  | operator (op : BinaryOp)
  | question
  | colon

/-- The marks of a ternary. -/
def Element.isMark : Element → Bool
  | .question | .colon => true
  | _ => false

/-- Operands grouped by operators and ternaries. An operand in parentheses is
a leaf. -/
inductive Grouping where
  | operand (e : Expr)
  | binary (op : BinaryOp) (left right : Grouping)
  | ternary (condition whenTrue whenFalse : Grouping)

namespace Grouping

/-- The reading of a grouping from left to right. -/
def elements : Grouping → List Element
  | .operand e => [.operand e]
  | .binary op left right => left.elements ++ .operator op :: right.elements
  | .ternary condition whenTrue whenFalse =>
    condition.elements ++
      .question :: (whenTrue.elements ++ .colon :: whenFalse.elements)

/-- How tightly the operators and ternaries of a grouping bind. -/
def precedences : Grouping → List Nat
  | .operand _ => []
  | .binary op left right =>
    op.precedence :: (left.precedences ++ right.precedences)
  | .ternary condition whenTrue whenFalse =>
    0 :: (condition.precedences ++
      (whenTrue.precedences ++ whenFalse.precedences))

/-- The expression that a grouping stands for. -/
def toExpr : Grouping → Expr
  | .operand e => e
  | .binary op left right => .binary op left.toExpr right.toExpr
  | .ternary condition whenTrue whenFalse =>
    .ternary condition.toExpr whenTrue.toExpr whenFalse.toExpr

/-- To the left of an operator nothing binds looser, to its right everything
binds tighter; in the condition of a ternary there is no other ternary. -/
inductive Ordered : Grouping → Prop where
  | operand {e : Expr} : Ordered (.operand e)
  | binary {op : BinaryOp} {left right : Grouping}
      (hleft : ∀ n ∈ left.precedences, op.precedence ≤ n)
      (hright : ∀ n ∈ right.precedences, op.precedence < n)
      (inleft : left.Ordered) (inright : right.Ordered) :
      Ordered (.binary op left right)
  | ternary {condition whenTrue whenFalse : Grouping}
      (hcondition : ∀ n ∈ condition.precedences, 0 < n)
      (incondition : condition.Ordered) (intrue : whenTrue.Ordered)
      (infalse : whenFalse.Ordered) :
      Ordered (.ternary condition whenTrue whenFalse)

/-- There is no ternary. -/
def Plain (t : Grouping) : Prop :=
  ∀ n ∈ t.precedences, 0 < n

section

variable {t t' left right left' right' : Grouping} {op op' : BinaryOp}

theorem plain_binary_iff :
    (binary op left right).Plain ↔ left.Plain ∧ right.Plain := by
  unfold Plain
  simp only [precedences, List.mem_cons, List.mem_append]
  constructor
  · intro h
    exact ⟨fun n hn => h n (.inr (.inl hn)), fun n hn => h n (.inr (.inr hn))⟩
  · rintro ⟨hleft, hright⟩ n (rfl | hn | hn)
    · exact op.precedence_pos
    · exact hleft n hn
    · exact hright n hn

theorem not_plain_ternary {condition whenTrue whenFalse : Grouping} :
    ¬ (ternary condition whenTrue whenFalse).Plain := by
  intro h
  exact Nat.lt_irrefl 0 (h 0 (List.mem_cons_self ..))

/-- Under a binary operator there is no ternary. -/
theorem Ordered.plain_binary (h : (Grouping.binary op left right).Ordered) :
    (Grouping.binary op left right).Plain := by
  cases h with
  | binary hleft hright _ _ =>
      rw [plain_binary_iff]
      constructor
      · intro n hn
        exact Nat.lt_of_lt_of_le op.precedence_pos (hleft n hn)
      · intro n hn
        exact Nat.lt_trans op.precedence_pos (hright n hn)

/-- Without ternaries there are no marks of them. -/
theorem Plain.isMark (h : t.Plain) {x : Element} (hx : x ∈ t.elements) :
    x.isMark = false := by
  induction t with
  | operand e =>
      obtain rfl := List.mem_singleton.mp hx
      rfl
  | binary op left right ihleft ihright =>
      obtain ⟨hleft, hright⟩ := plain_binary_iff.mp h
      rw [elements, List.mem_append, List.mem_cons] at hx
      rcases hx with hx | rfl | hx
      · exact ihleft hleft hx
      · rfl
      · exact ihright hright hx
  | ternary => exact absurd h not_plain_ternary

theorem precedence_mem (h : .operator op ∈ t.elements) :
    op.precedence ∈ t.precedences := by
  induction t with
  | operand e => cases List.mem_singleton.mp h
  | binary op' left right ihleft ihright =>
      simp only [elements, List.mem_append, List.mem_cons,
        Element.operator.injEq] at h
      simp only [precedences, List.mem_cons, List.mem_append]
      rcases h with h | rfl | h
      · exact .inr (.inl (ihleft h))
      · exact .inl rfl
      · exact .inr (.inr (ihright h))
  | ternary condition whenTrue whenFalse ihcondition ihtrue ihfalse =>
      simp only [elements, List.mem_append, List.mem_cons, reduceCtorEq,
        false_or] at h
      simp only [precedences, List.mem_cons, List.mem_append]
      rcases h with h | h | h
      · exact .inr (.inl (ihcondition h))
      · exact .inr (.inr (.inl (ihtrue h)))
      · exact .inr (.inr (.inr (ihfalse h)))

theorem elements_ne_nil (t : Grouping) : t.elements ≠ [] := by
  cases t <;> simp [elements]

/-- One operation on two operands is ordered. -/
theorem ordered_binary (op : BinaryOp) (a b : Expr) :
    (binary op (.operand a) (.operand b)).Ordered :=
  .binary (fun _ hn => absurd hn List.not_mem_nil)
    (fun _ hn => absurd hn List.not_mem_nil) .operand .operand

theorem ordered_ternary (a b c : Expr) :
    (ternary (.operand a) (.operand b) (.operand c)).Ordered :=
  .ternary (fun _ hn => absurd hn List.not_mem_nil) .operand .operand .operand

/-! ## Uniqueness -/

/-- Of two ordered groupings with the same reading neither has its root to the
right of the root of the other. -/
theorem not_root_behind {between : List Element}
    (h : (Grouping.binary op left right).Ordered)
    (h' : (Grouping.binary op' left' right').Ordered)
    (hleft : left'.elements = left.elements ++ .operator op :: between)
    (hright : right.elements =
      between ++ .operator op' :: right'.elements) : False := by
  cases h with
  | binary _ hlow _ _ =>
      cases h' with
      | binary hhigh _ _ _ =>
          -- Each root would have to bind looser than the other.
          have hmem : .operator op ∈ left'.elements := by
            rw [hleft]
            simp
          have hmem' : .operator op' ∈ right.elements := by
            rw [hright]
            simp
          have hless := hlow _ (precedence_mem hmem')
          have hle := hhigh _ (precedence_mem hmem)
          omega

/-- The root of an ordered grouping is determined by its reading. -/
theorem Ordered.root_eq (h : (Grouping.binary op left right).Ordered)
    (h' : (Grouping.binary op' left' right').Ordered)
    (heq : (Grouping.binary op left right).elements =
      (Grouping.binary op' left' right').elements) :
    op = op' ∧ left.elements = left'.elements ∧
      right.elements = right'.elements := by
  rcases List.append_eq_append_iff.mp heq with
    ⟨between, hl, hr⟩ | ⟨between, hl, hr⟩
  · cases between with
    | nil =>
        obtain ⟨hop, hright⟩ := List.cons.inj hr
        rw [List.append_nil] at hl
        exact ⟨Element.operator.inj hop, hl.symm, hright⟩
    | cons x between =>
        obtain ⟨rfl, hbehind⟩ := List.cons.inj hr
        exact absurd hbehind (not_root_behind h h' hl)
  · cases between with
    | nil =>
        obtain ⟨hop, hright⟩ := List.cons.inj hr
        rw [List.append_nil] at hl
        exact ⟨(Element.operator.inj hop).symm, hl, hright.symm⟩
    | cons x between =>
        obtain ⟨rfl, hbehind⟩ := List.cons.inj hr
        exact absurd hbehind (not_root_behind h' h hl)

theorem elements_operand_ne {e : Expr} :
    (Grouping.operand e).elements ≠ (Grouping.binary op left right).elements := by
  intro heq
  have hlength := congrArg List.length heq
  have hpos := List.length_pos_iff.mpr left.elements_ne_nil
  simp only [elements, List.length_append, List.length_cons,
    List.length_nil] at hlength
  omega

/-- Without ternaries there is one ordered grouping of a reading. -/
theorem Ordered.unique_plain (h : t.Ordered) (h' : t'.Ordered)
    (hplain : t.Plain) (hplain' : t'.Plain)
    (heq : t.elements = t'.elements) : t = t' := by
  induction h generalizing t' with
  | @operand e =>
      cases h' with
      | operand =>
          obtain ⟨he, _⟩ := List.cons.inj heq
          rw [Element.operand.inj he]
      | binary => exact absurd heq elements_operand_ne
      | ternary => exact absurd hplain' not_plain_ternary
  | binary hleft hright inleft inright ihleft ihright =>
      cases h' with
      | operand => exact absurd heq.symm elements_operand_ne
      | binary hleft' hright' inleft' inright' =>
          obtain ⟨hpl, hpr⟩ := plain_binary_iff.mp hplain
          obtain ⟨hpl', hpr'⟩ := plain_binary_iff.mp hplain'
          obtain ⟨hop, hl, hr⟩ := Ordered.root_eq
            (.binary hleft hright inleft inright)
            (.binary hleft' hright' inleft' inright') heq
          rw [hop, ihleft inleft' hpl hpl' hl, ihright inright' hpr hpr' hr]
      | ternary => exact absurd hplain' not_plain_ternary
  | ternary => exact absurd hplain not_plain_ternary

/-- Where the first mark stands is determined. -/
theorem append_inj_of_marks {xs ys R R' : List Element}
    (hxs : ∀ x ∈ xs, x.isMark = false) (hys : ∀ y ∈ ys, y.isMark = false)
    (hR : ∀ x ∈ R.head?, x.isMark = true)
    (hR' : ∀ x ∈ R'.head?, x.isMark = true) (heq : xs ++ R = ys ++ R') :
    xs = ys ∧ R = R' := by
  induction xs generalizing ys with
  | nil =>
      cases ys with
      | nil => exact ⟨rfl, heq⟩
      | cons y ys =>
          obtain rfl : R = y :: (ys ++ R') := heq
          have hmark := hR y rfl
          rw [hys y (List.mem_cons_self ..)] at hmark
          cases hmark
  | cons x xs ih =>
      cases ys with
      | nil =>
          obtain rfl : x :: (xs ++ R) = R' := heq
          have hmark := hR' x rfl
          rw [hxs x (List.mem_cons_self ..)] at hmark
          cases hmark
      | cons y ys =>
          obtain ⟨rfl, hrest⟩ := List.cons.inj heq
          obtain ⟨rfl, rfl⟩ := ih
            (fun x hx => hxs x (List.mem_cons_of_mem _ hx))
            (fun y hy => hys y (List.mem_cons_of_mem _ hy)) hrest
          exact ⟨rfl, rfl⟩

/-- Behind a grouping stands nothing, or the colon of a ternary around it. -/
def Followed (R : List Element) : Prop :=
  ∀ x ∈ R.head?, x = .colon

theorem Followed.isMark {R : List Element} (h : Followed R) :
    ∀ x ∈ R.head?, x.isMark = true := by
  intro x hx
  rw [h x hx]
  rfl

theorem followed_nil : Followed [] := by
  intro x hx
  cases hx

theorem followed_colon (R : List Element) : Followed (.colon :: R) := by
  intro x hx
  exact (Option.some.inj hx).symm

/-- An ordered grouping without ternaries is the only one where it stands. -/
theorem Ordered.unique_of_plain {R R' : List Element} (h : t.Ordered)
    (hplain : t.Plain) (h' : t'.Ordered) (hR : Followed R)
    (hR' : Followed R') (heq : t.elements ++ R = t'.elements ++ R') :
    t = t' ∧ R = R' := by
  have hplain' : t'.Plain := by
    cases h' with
    | operand => exact nofun
    | binary hleft hright inleft inright =>
        exact Ordered.plain_binary (.binary hleft hright inleft inright)
    | ternary hcondition _ _ _ =>
        -- The question would have to be the mark behind the other grouping.
        rw [elements, List.append_assoc] at heq
        obtain ⟨_, rfl⟩ := append_inj_of_marks
          (fun _ => hplain.isMark) (fun _ => Plain.isMark hcondition)
          hR.isMark (fun x hx => by rw [← Option.some.inj hx]; rfl) heq
        cases hR _ rfl
  obtain ⟨hsame, rfl⟩ := append_inj_of_marks (fun _ => hplain.isMark)
    (fun _ => hplain'.isMark) hR.isMark hR'.isMark heq
  exact ⟨h.unique_plain h' hplain hplain' hsame, rfl⟩

theorem Ordered.unique_followed {R R' : List Element} (h : t.Ordered)
    (h' : t'.Ordered) (hR : Followed R) (hR' : Followed R')
    (heq : t.elements ++ R = t'.elements ++ R') : t = t' ∧ R = R' := by
  induction h generalizing t' R R' with
  | operand => exact Ordered.operand.unique_of_plain nofun h' hR hR' heq
  | binary hleft hright inleft inright =>
      have h : (Grouping.binary _ _ _).Ordered := .binary hleft hright inleft inright
      exact h.unique_of_plain h.plain_binary h' hR hR' heq
  | @ternary condition whenTrue whenFalse hcondition incondition intrue
      infalse _ ihtrue ihfalse =>
      have h : (Grouping.ternary condition whenTrue whenFalse).Ordered :=
        .ternary hcondition incondition intrue infalse
      by_cases hplain' : t'.Plain
      · obtain ⟨rfl, _⟩ := h'.unique_of_plain hplain' h hR' hR heq.symm
        exact absurd hplain' not_plain_ternary
      · cases h' with
        | operand => exact absurd nofun hplain'
        | binary hleft hright inleft inright =>
            exact absurd
              (Ordered.plain_binary (.binary hleft hright inleft inright))
              hplain'
        | ternary hcondition' incondition' intrue' infalse' =>
            simp only [elements, List.append_assoc, List.cons_append] at heq
            obtain ⟨hsame, hbehind⟩ := append_inj_of_marks
              (fun _ => Plain.isMark hcondition)
              (fun _ => Plain.isMark hcondition')
              (fun x hx => by rw [← Option.some.inj hx]; rfl)
              (fun x hx => by rw [← Option.some.inj hx]; rfl) heq
            obtain rfl := incondition.unique_plain incondition' hcondition
              hcondition' hsame
            obtain ⟨rfl, hcolon⟩ := ihtrue intrue' (followed_colon _)
              (followed_colon _) (List.cons.inj hbehind).2
            obtain ⟨rfl, hrest⟩ := ihfalse infalse' hR hR'
              (List.cons.inj hcolon).2
            exact ⟨rfl, hrest⟩

/-- **There is at most one ordered grouping of a reading.** -/
theorem Ordered.unique (h : t.Ordered) (h' : t'.Ordered)
    (heq : t.elements = t'.elements) : t = t' := by
  have hboth : t.elements ++ [] = t'.elements ++ [] := by rw [heq]
  exact (h.unique_followed h' followed_nil followed_nil hboth).1

end

end Grouping

end Barscript.Script

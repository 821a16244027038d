import Barscript.Text.Line
import Mathlib.Data.List.Basic

/-!
# The line around a cut

A text cut in two is cut inside of one of its lines (`lineThrough`). Which of its
lines that is, is known from the newlines in front of the cut
(`getD_lines`); behind the last newline stands an empty line.
-/

namespace Barscript.Text

/-- The characters behind the last newline of a text. -/
def currentLine (front : List Char) : List Char :=
  (front.reverse.takeWhile (· != '\n')).reverse

/-- The line that a cut goes through, without its end. A carriage return belongs
to the end of the line if a newline follows. -/
def lineThrough (front behind : List Char) : List Char :=
  let line := currentLine front ++ behind.takeWhile (· != '\n')
  if '\n' ∈ behind then (dropReturn line.reverse).reverse else line

section

variable {front behind current : List Char} {c : Char}

theorem currentLine_newline (front behind : List Char) :
    currentLine (front ++ '\n' :: behind) = currentLine behind := by
  unfold currentLine
  rw [List.reverse_append, List.reverse_cons, List.append_assoc,
    List.takeWhile_append]
  -- The newline ends the characters behind it, however many there are.
  split
  · rename_i hall
    rw [List.singleton_append, List.takeWhile_cons_of_neg (by simp), List.append_nil]
    exact congrArg _ ((List.takeWhile_prefix _).eq_of_length hall).symm
  · rfl

theorem currentLine_append (front : List Char) (h : '\n' ∉ behind) :
    currentLine (front ++ behind) = currentLine front ++ behind := by
  have hall : ∀ c ∈ behind.reverse, (c != '\n') = true := by
    intro c hc
    have hne : c ≠ '\n' := fun heq => h (heq ▸ List.mem_reverse.mp hc)
    simpa using hne
  unfold currentLine
  rw [List.reverse_append, List.takeWhile_append_of_pos hall, List.reverse_append,
    List.reverse_reverse]

theorem currentLine_eq_self (h : '\n' ∉ front) : currentLine front = front :=
  currentLine_append [] h

theorem lineThrough_newline (front middle behind : List Char) :
    lineThrough (front ++ '\n' :: middle) behind = lineThrough middle behind := by
  unfold lineThrough
  rw [currentLine_newline]

/-- A cut further on in the same line. -/
theorem lineThrough_further (h : c ≠ '\n') (front behind : List Char) :
    lineThrough (front ++ [c]) behind = lineThrough front (c :: behind) := by
  have hc : '\n' ∉ [c] := fun hmem => h (List.mem_singleton.mp hmem).symm
  have hends : '\n' ∈ c :: behind ↔ '\n' ∈ behind := by
    rw [List.mem_cons, or_iff_right fun heq => h heq.symm]
  unfold lineThrough
  rw [currentLine_append front hc, List.takeWhile_cons_of_pos (by simpa using h),
    List.append_assoc]
  simp only [hends, List.singleton_append]

theorem linesAfter_cons (h : c ≠ '\n') (current rest : List Char) :
    linesAfter current (c :: rest) = linesAfter (c :: current) rest := by
  rw [linesAfter]
  exact h

/-- The line that a cut goes through ends behind the cut. -/
theorem getD_linesAfter_zero (h : '\n' ∉ current) (behind : List Char) :
    ((linesAfter current behind)[0]?).getD [] =
      lineThrough current.reverse behind := by
  induction behind generalizing current with
  | nil =>
      have hcurrent : lineThrough current.reverse [] = current.reverse := by
        unfold lineThrough
        rw [currentLine_eq_self (mt List.mem_reverse.mp h), if_neg List.not_mem_nil]
        exact List.append_nil _
      rw [hcurrent, linesAfter]
      cases current <;> rfl
  | cons c rest ih =>
      by_cases hc : c = '\n'
      · subst hc
        unfold lineThrough
        rw [currentLine_eq_self (mt List.mem_reverse.mp h),
          if_pos (List.mem_cons_self ..), List.takeWhile_cons_of_neg (by simp),
          List.append_nil, List.reverse_reverse]
        rfl
      · have hmore : '\n' ∉ c :: current := by
          rw [List.mem_cons, not_or]
          exact ⟨fun heq => hc heq.symm, h⟩
        rw [linesAfter_cons hc, ih hmore, List.reverse_cons, lineThrough_further hc]

/-- **The newlines in front of a cut number the line it goes through.** -/
theorem getD_linesAfter (h : '\n' ∉ current) (front behind : List Char) :
    ((linesAfter current (front ++ behind))[front.count '\n']?).getD [] =
      lineThrough (current.reverse ++ front) behind := by
  induction front generalizing current with
  | nil =>
      rw [List.append_nil]
      exact getD_linesAfter_zero h behind
  | cons c rest ih =>
      by_cases hc : c = '\n'
      · subst hc
        rw [lineThrough_newline, List.count_cons_self, List.cons_append, linesAfter,
          List.getElem?_cons_succ]
        exact ih List.not_mem_nil
      · have hmore : '\n' ∉ c :: current := by
          rw [List.mem_cons, not_or]
          exact ⟨fun heq => hc heq.symm, h⟩
        rw [List.count_cons_of_ne hc, List.cons_append, linesAfter_cons hc, ih hmore,
          List.reverse_cons, List.append_assoc]
        rfl

theorem getD_lines (front behind : List Char) :
    ((lines (front ++ behind))[front.count '\n']?).getD [] =
      lineThrough front behind :=
  getD_linesAfter List.not_mem_nil front behind

end

end Barscript.Text

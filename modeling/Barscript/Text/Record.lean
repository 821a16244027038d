import Barscript.Text.Symbol

/-!
# Records

A table in a text file: records on lines, cells between commas.  A cell that begins with a quote
runs to the closing quote, whatever stands in between; a quote inside is written twice, and what
follows the closing quote is taken as it stands.  Blank lines lie between records.

Reading cannot fail.  `takeCell`, `takeCells` and `records` take the longest cell, record and list
of records, and the first two also give what is left.
-/

namespace Barscript.Text

variable {σ : Type} [Symbol σ]

/-- The symbols that end a record. -/
def endsRecord (s : σ) : Bool :=
  isMark '\n' s || isMark '\r' s

/-- The symbols that end a cell. -/
def endsCell (s : σ) : Bool :=
  isMark ',' s || endsRecord s

/-- A cell taken as it stands, and what is behind it. -/
def takePlain (file : List σ) : List σ × List σ :=
  (file.takeWhile fun s => !endsCell s, file.dropWhile fun s => !endsCell s)

/-- A cell whose opening quote is read, and what is behind it. -/
def takeQuoted : List σ → List σ × List σ
  | [] => ([], [])
  | s :: rest =>
    if isMark '"' s then
      match rest with
      | [] => ([], [])
      | t :: behind =>
        if isMark '"' t then
          let (cell, left) := takeQuoted behind
          (t :: cell, left)
        else takePlain (t :: behind)
    else
      let (cell, left) := takeQuoted rest
      (s :: cell, left)

/-- A cell, and what is behind it. -/
def takeCell : List σ → List σ × List σ
  | [] => ([], [])
  | s :: rest => if isMark '"' s then takeQuoted rest else takePlain (s :: rest)

theorem takePlain_length_le (file : List σ) : (takePlain file).2.length ≤ file.length :=
  (List.dropWhile_sublist _).length_le

theorem takeQuoted_length_le (file : List σ) : (takeQuoted file).2.length ≤ file.length := by
  fun_induction takeQuoted file with
  | case1 => simp
  | case2 s opening => simp
  | case3 s opening t behind doubled cell left taken ih => grind
  | case4 s opening t behind single =>
    exact Nat.le_succ_of_le (takePlain_length_le (t :: behind))
  | case5 s rest inside cell left taken ih => grind

theorem takeCell_length_le (file : List σ) : (takeCell file).2.length ≤ file.length := by
  cases file with
  | nil => simp [takeCell]
  | cons s rest =>
    simp only [takeCell]
    split
    · exact Nat.le_succ_of_le (takeQuoted_length_le rest)
    · exact takePlain_length_le (s :: rest)

/-- The cells of a record, and what is behind it.  Of its end only the first symbol is taken. -/
def takeCells (file : List σ) : List (List σ) × List σ :=
  let cell := (takeCell file).1
  match _h : (takeCell file).2 with
  | [] => ([cell], [])
  | s :: rest =>
    if isMark ',' s then
      let (cells, left) := takeCells rest
      (cell :: cells, left)
    else ([cell], rest)
termination_by file.length
decreasing_by
  have shorter := takeCell_length_le file
  simp only [_h, List.length_cons] at shorter
  omega

/-- A record takes at least one symbol. -/
theorem takeCells_length_lt (file : List σ) (h : file ≠ []) :
    (takeCells file).2.length < file.length := by
  fun_induction takeCells file with
  | case1 file cell atEnd => exact List.length_pos_iff.mpr h
  | case2 file cell s rest more comma cells left taken ih =>
    have shorter := takeCell_length_le file
    simp only [more, List.length_cons] at shorter
    by_cases atEnd : rest = []
    · subst atEnd
      simp only [takeCells, takeCell, Prod.mk.injEq] at taken
      simp only [← taken.2]
      exact List.length_pos_iff.mpr h
    · have bound := ih atEnd
      simp only [taken] at bound
      exact Nat.lt_trans bound shorter
  | case3 file cell s rest more other =>
    have shorter := takeCell_length_le file
    simp only [more, List.length_cons] at shorter
    exact shorter

/-- A record of a table. -/
structure Record (σ : Type) where
  cells : List (List σ)
  /-- What was left of the table before the record was read, blank lines included. -/
  start : List σ

/-- The records of a table. -/
def records (file : List σ) : List (Record σ) :=
  match _h : file.dropWhile endsRecord with
  | [] => []
  | s :: rest => ⟨(takeCells (s :: rest)).1, file⟩ :: records (takeCells (s :: rest)).2
termination_by file.length
decreasing_by
  have shorter := takeCells_length_lt (s :: rest) (List.cons_ne_nil s rest)
  have bound : (s :: rest).length ≤ file.length := _h ▸ (List.dropWhile_sublist _).length_le
  exact Nat.lt_of_lt_of_le shorter bound

end Barscript.Text

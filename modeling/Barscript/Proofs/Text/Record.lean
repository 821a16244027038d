import Mathlib.Data.List.TakeWhile
import Barscript.Text.Record

/-!
# A written table reads back

A table is written cell by cell: as they stand, or between quotes where the marks of the
table stand in them, with commas between the cells and the end of a line behind each row.
Each reader takes exactly what was written and leaves what is behind it, so `records` gives
the rows back (`cells_records_table`).
-/

namespace Barscript.Text

/-! ## Writing -/

/-- A text with every quote in it written twice. -/
def doubled (cell : List Char) : List Char :=
  cell.flatMap fun c => if c = '"' then ['"', '"'] else [c]

/-- How a cell may be written: as it stands if it is free of the marks of a table, and
between quotes always. -/
inductive SpellsCell (cell : List Char) : List Char → Prop where
  | plain (h : ∀ c ∈ cell, endsCell c = false ∧ c ≠ '"') : SpellsCell cell cell
  | quoted : SpellsCell cell ('"' :: (doubled cell ++ ['"']))

/-- The cells of a row, with commas between them. -/
inductive SpellsRow : List (List Char) → List Char → Prop where
  | last {cell text : List Char} (h : SpellsCell cell text) : SpellsRow [cell] text
  | cons {cell text : List Char} {cells : List (List Char)} {behind : List Char}
      (h : SpellsCell cell text) (hcells : SpellsRow cells behind) :
      SpellsRow (cell :: cells) (text ++ ',' :: behind)

/-- Rows, each with the end of a line behind it, or of several; behind the last row it may be
missing. -/
inductive SpellsTable : List (List (List Char)) → List Char → Prop where
  | nil : SpellsTable [] []
  | last {row : List (List Char)} {text : List Char} (h : SpellsRow row text) :
      SpellsTable [row] text
  | cons {row : List (List Char)} {text ending : List Char} {rows : List (List (List Char))}
      {behind : List Char} (h : SpellsRow row text) (hne : ending ≠ [])
      (hending : ∀ c ∈ ending, endsRecord c = true) (hrows : SpellsTable rows behind) :
      SpellsTable (row :: rows) (text ++ ending ++ behind)

/-- A cell in quotes if it needs them. -/
def writeCell (cell : List Char) : List Char :=
  if cell.all fun c => !endsCell c && c != '"' then cell else '"' :: (doubled cell ++ ['"'])

/-- A row with commas between its cells. -/
def writeRow : List (List Char) → List Char
  | [] => []
  | [cell] => writeCell cell
  | cell :: cells => writeCell cell ++ ',' :: writeRow cells

/-- A table with a newline behind every row. -/
def writeTable (rows : List (List (List Char))) : List Char :=
  rows.flatMap fun row => writeRow row ++ ['\n']

theorem spellsCell_writeCell (cell : List Char) : SpellsCell cell (writeCell cell) := by
  unfold writeCell
  split
  · rename_i h
    exact .plain (by simpa using h)
  · exact .quoted

theorem spellsRow_writeRow {row : List (List Char)} (h : row ≠ []) :
    SpellsRow row (writeRow row) := by
  fun_induction writeRow row with
  | case1 => exact absurd rfl h
  | case2 cell => exact .last (spellsCell_writeCell cell)
  | case3 cell cells hcells ih => exact .cons (spellsCell_writeCell cell) (ih hcells)

theorem spellsTable_writeTable {rows : List (List (List Char))} (h : ∀ row ∈ rows, row ≠ []) :
    SpellsTable rows (writeTable rows) := by
  induction rows with
  | nil => exact .nil
  | cons row rows ih =>
      obtain ⟨hrow, hrows⟩ := List.forall_mem_cons.mp h
      exact .cons (spellsRow_writeRow hrow) (List.cons_ne_nil _ _)
        (List.forall_mem_singleton.mpr rfl) (ih hrows)

/-! ## Cells -/

section

variable {cell text behind : List Char}

theorem takePlain_append (hcell : ∀ c ∈ cell, endsCell c = false)
    (hbehind : ∀ c ∈ behind.head?, endsCell c = true) :
    takePlain (cell ++ behind) = (cell, behind) := by
  have hall : ∀ c ∈ cell, (!endsCell c) = true := fun c hc => by rw [hcell c hc]; rfl
  unfold takePlain
  rw [List.takeWhile_append_of_pos hall, List.dropWhile_append_of_pos hall]
  cases behind with
  | nil => simp
  | cons c rest => simp [hbehind c rfl]

/-- A quote does not end a cell. -/
theorem ne_quote_of_endsCell {c : Char} (h : endsCell c = true) : c ≠ '"' := by
  rintro rfl
  exact absurd h (by decide)

/-- A quoted cell runs to its closing quote. -/
theorem takeQuoted_doubled (hbehind : ∀ c ∈ behind.head?, endsCell c = true) :
    takeQuoted (doubled cell ++ '"' :: behind) = (cell, behind) := by
  induction cell with
  | nil =>
      show takeQuoted ('"' :: behind) = _
      cases behind with
      | nil => simp [takeQuoted]
      | cons c rest =>
          have hc := ne_quote_of_endsCell (hbehind c rfl)
          have hplain : takePlain (c :: rest) = ([], c :: rest) :=
            takePlain_append (List.forall_mem_nil _) hbehind
          simpa [takeQuoted, hc] using hplain
  | cons c cell ih =>
      by_cases hc : c = '"'
      · subst hc
        show takeQuoted ('"' :: '"' :: (doubled cell ++ '"' :: behind)) = _
        simp [takeQuoted, ih]
      · have htext : doubled (c :: cell) = c :: doubled cell := by
          unfold doubled
          rw [List.flatMap_cons, if_neg hc]
          rfl
        rw [htext, List.cons_append, takeQuoted.eq_def]
        simp [hc, ih]

/-- **A written cell reads back**, and what is behind it is left. -/
theorem takeCell_append (h : SpellsCell cell text)
    (hbehind : ∀ c ∈ behind.head?, endsCell c = true) :
    takeCell (text ++ behind) = (cell, behind) := by
  cases h with
  | plain hplain =>
      have hread := takePlain_append (fun c hc => (hplain c hc).1) hbehind
      cases hfile : cell ++ behind with
      | nil =>
          obtain ⟨rfl, rfl⟩ := List.append_eq_nil_iff.mp hfile
          rfl
      | cons c rest =>
          have hc : c ≠ '"' := by
            have hmem : c ∈ (cell ++ behind).head? := by rw [hfile]; rfl
            rw [List.head?_append, Option.mem_def, Option.or_eq_some_iff] at hmem
            rcases hmem with hmem | ⟨-, hmem⟩
            · exact (hplain c (List.mem_of_mem_head? hmem)).2
            · exact ne_quote_of_endsCell (hbehind c hmem)
          rw [hfile] at hread
          rw [takeCell, if_neg (by simpa using hc)]
          exact hread
  | quoted =>
      rw [List.cons_append, List.append_assoc, List.singleton_append]
      exact takeQuoted_doubled hbehind

end

/-! ## Rows -/

theorem takeCells_of_end {file cell : List Char} (h : takeCell file = (cell, [])) :
    takeCells file = ([cell], []) := by
  rw [takeCells]
  split
  · rw [h]
  · rename_i heq
    rw [h] at heq
    cases heq

theorem takeCells_of_cons {file cell rest : List Char} {c : Char}
    (h : takeCell file = (cell, c :: rest)) :
    takeCells file = if c = ',' then (cell :: (takeCells rest).1, (takeCells rest).2)
      else ([cell], rest) := by
  rw [takeCells]
  split
  · rename_i heq
    rw [h] at heq
    cases heq
  · rename_i heq
    rw [h] at heq
    cases heq
    simp [h]

section

variable {row : List (List Char)} {text behind : List Char}

/-- **A written row reads back.** Of what ends it one symbol is read as well. -/
theorem takeCells_append (h : SpellsRow row text)
    (hbehind : ∀ c ∈ behind.head?, endsRecord c = true) :
    takeCells (text ++ behind) = (row, behind.tail) := by
  induction h with
  | last h =>
      have hcell := takeCell_append h fun c hc =>
        (Bool.or_eq_true ..).mpr (.inr (hbehind c hc))
      cases behind with
      | nil => exact takeCells_of_end hcell
      | cons c rest =>
          have hcomma : c ≠ ',' := by
            rintro rfl
            exact absurd (hbehind _ rfl) (by decide)
          rw [takeCells_of_cons hcell, if_neg hcomma]
          rfl
  | @cons cell text cells rest h hcells ih =>
      have hcell : takeCell (text ++ ',' :: (rest ++ behind)) = (cell, ',' :: (rest ++ behind)) :=
        takeCell_append h (by simp [endsCell])
      rw [List.append_assoc, List.cons_append, takeCells_of_cons hcell, if_pos rfl, ih]

/-- A row of two cells or more is no blank line. -/
theorem exists_cons_of_spellsRow (h : SpellsRow row text) (hwide : 2 ≤ row.length) :
    ∃ c rest, text = c :: rest ∧ endsRecord c = false := by
  cases h with
  | last h => exact absurd hwide (by simp)
  | cons h hcells =>
      cases h with
      | quoted => exact ⟨'"', _, rfl, by decide⟩
      | plain hplain =>
          rename_i cell cells rest
          cases cell with
          | nil => exact ⟨',', _, rfl, by decide⟩
          | cons c cell =>
              have hc := (hplain c (List.mem_cons_self ..)).1
              exact ⟨c, _, rfl, (Bool.or_eq_false_iff.mp hc).2⟩

end

/-! ## Tables -/

section

variable {rows : List (List (List Char))} {text : List Char}

/-- The cells of the records, without the places they stand at. -/
theorem cells_records (file : List Char) :
    (records file).map Record.cells =
      match file.dropWhile endsRecord with
      | [] => []
      | c :: rest => (takeCells (c :: rest)).1 ::
          (records (takeCells (c :: rest)).2).map Record.cells := by
  rw [records]
  split
  · rename_i heq
    rw [heq]
    rfl
  · rename_i heq
    rw [heq]
    rfl

/-- Blank lines in front of a table do not count. -/
theorem cells_records_append {ending : List Char}
    (hending : ∀ c ∈ ending, endsRecord c = true) (file : List Char) :
    (records (ending ++ file)).map Record.cells = (records file).map Record.cells := by
  rw [cells_records, cells_records file, List.dropWhile_append_of_pos hending]

/-- A written row is the first record. -/
theorem cells_records_row {row : List (List Char)} {behind : List Char}
    (h : SpellsRow row text) (hwide : 2 ≤ row.length)
    (hbehind : ∀ c ∈ behind.head?, endsRecord c = true) :
    (records (text ++ behind)).map Record.cells =
      row :: (records behind.tail).map Record.cells := by
  have hcells := takeCells_append h hbehind
  obtain ⟨c, rest, rfl, hc⟩ := exists_cons_of_spellsRow h hwide
  rw [List.cons_append] at hcells ⊢
  rw [cells_records]
  simp only [List.dropWhile_cons_of_neg (Bool.eq_false_iff.mp hc), hcells]

/-- **The rows of a written table read back.** -/
theorem cells_records_table (h : SpellsTable rows text)
    (hwide : ∀ row ∈ rows, 2 ≤ row.length) : (records text).map Record.cells = rows := by
  induction h with
  | nil => simp [records]
  | @last row text h =>
      have hread : (records (text ++ [])).map Record.cells = row :: (records []).map Record.cells :=
        cells_records_row h (hwide row (List.mem_cons_self ..)) nofun
      rw [List.append_nil] at hread
      rw [hread]
      simp [records]
  | @cons row text ending rows behind h hne hending hrows ih =>
      obtain ⟨mark, ending, rfl⟩ := List.exists_cons_of_ne_nil hne
      obtain ⟨hmark, hending⟩ := List.forall_mem_cons.mp hending
      rw [List.append_assoc, List.cons_append,
        cells_records_row h (hwide row (List.mem_cons_self ..)) (by simpa), List.tail_cons,
        cells_records_append hending, ih fun row hrow => hwide row (List.mem_cons_of_mem _ hrow)]

end

/-! ## The mark at the start -/

/-- The character that may stand in front of a text to tell its encoding. -/
def startMark : Char := '\uFEFF'

section

variable {cell text behind : List Char} {cells : List (List Char)}
  {rows : List (List (List Char))}

theorem withoutStartMark_cons (c : Char) (rest : List Char) :
    withoutStartMark (c :: rest) = if c = startMark then rest else c :: rest := by
  have hcode : c.toNat = 0xFEFF ↔ c = startMark :=
    ⟨fun h => Char.toNat_inj.mp h, fun h => h ▸ rfl⟩
  show (if [c.toNat] = [0xFEFF] then rest else c :: rest) = _
  simp only [List.cons.injEq, and_true, hcode]

theorem withoutStartMark_subset (text : List Char) : withoutStartMark text ⊆ text := by
  cases text with
  | nil => exact List.Subset.refl _
  | cons c rest =>
      rw [withoutStartMark_cons]
      split
      · exact List.subset_cons_self c rest
      · exact List.Subset.refl _

theorem startMark_notMem_head? {c : Char} (h : c ≠ startMark) (rest : List Char) :
    startMark ∉ (c :: rest).head? :=
  fun hmark => h (Option.some.inj hmark)

theorem withoutStartMark_append (h : startMark ∉ behind.head?) :
    withoutStartMark (text ++ behind) = withoutStartMark text ++ behind := by
  cases text with
  | cons c text =>
      rw [List.cons_append, withoutStartMark_cons, withoutStartMark_cons]
      split <;> rfl
  | nil =>
      cases behind with
      | nil => rfl
      | cons c rest =>
          rw [List.nil_append, withoutStartMark_cons, if_neg fun hc => h (congrArg some hc)]
          rfl

/-- The mark is lost from a cell that is written as it stands. -/
theorem spellsCell_withoutStartMark (h : SpellsCell cell text) :
    ∃ seen, (seen = cell ∨ seen = withoutStartMark cell) ∧
      SpellsCell seen (withoutStartMark text) := by
  cases h with
  | plain hplain =>
      exact ⟨_, .inr rfl, .plain fun c hc => hplain c (withoutStartMark_subset cell hc)⟩
  | quoted => exact ⟨cell, .inl rfl, .quoted⟩

theorem spellsRow_withoutStartMark (h : SpellsRow (cell :: cells) text) :
    ∃ seen, (seen = cell ∨ seen = withoutStartMark cell) ∧
      SpellsRow (seen :: cells) (withoutStartMark text) := by
  cases h with
  | last h =>
      obtain ⟨seen, hseen, h⟩ := spellsCell_withoutStartMark h
      exact ⟨seen, hseen, .last h⟩
  | cons h hcells =>
      obtain ⟨seen, hseen, h⟩ := spellsCell_withoutStartMark h
      rw [withoutStartMark_append (startMark_notMem_head? (by decide) _)]
      exact ⟨seen, hseen, .cons h hcells⟩

/-- **A table whose first cell may have lost the mark** is what is left without it. -/
theorem spellsTable_withoutStartMark (h : SpellsTable ((cell :: cells) :: rows) text) :
    ∃ seen, (seen = cell ∨ seen = withoutStartMark cell) ∧
      SpellsTable ((seen :: cells) :: rows) (withoutStartMark text) := by
  cases h with
  | last h =>
      obtain ⟨seen, hseen, h⟩ := spellsRow_withoutStartMark h
      exact ⟨seen, hseen, .last h⟩
  | @cons _ text ending _ behind h hne hending hrows =>
      obtain ⟨seen, hseen, h⟩ := spellsRow_withoutStartMark h
      obtain ⟨c, ending, rfl⟩ := List.exists_cons_of_ne_nil hne
      have hc : c ≠ startMark := by
        rintro rfl
        exact absurd (hending _ (List.mem_cons_self ..)) (by decide)
      have hrest : startMark ∉ (c :: ending ++ behind).head? :=
        startMark_notMem_head? hc (ending ++ behind)
      rw [List.append_assoc, withoutStartMark_append hrest, ← List.append_assoc]
      exact ⟨seen, hseen, .cons h hne hending hrows⟩

end

end Barscript.Text
